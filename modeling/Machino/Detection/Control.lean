import Machino.Detection.DetectionService

namespace Machino.Detection

open Runs

/-- Whether the caller starts the detector again. -/
def AfterStop.restarts (cfg : AiConfig) : AfterStop → Bool
  | .done => false
  | .restart => true
  | .ifEnabled => cfg.enabled

namespace DetectionService

/-- The detector is up, and its thread polls it. -/
def Running (s : DetectionService) : Prop :=
  s.state = .active ∧ ∃ t d, s.thread = some t ∧ s.threads[t]? = some ⟨false, 0⟩ ∧ s.det = some d ∧
    s.detectors[d]? = some true

structure Serialised (s : DetectionService) : Prop where
  joinedOnce : ∀ th ∈ s.threads, th.joins ≤ 1
  single : s.doubled = false
  allJoined : s.stops = [] → ∀ (t : ℕ) (th : PollThread), s.threads[t]? = some th →
    s.thread ≠ some t → th.joins = 1
  asAsked : s.stops = [] → (s.Running ↔ s.wanted = true) ∨ s.state = .error

/-- A call does not join while another one does, starts nothing beside a stop, and agrees with what
the caller that is in its stop will do behind it. A setter does not bring a detector back that was
shut down. -/
def quiet (c : Call) (s : DetectionService) : Bool :=
  let setter (reads : Bool) := !(reads && s.shouldRun) || (s.stops.isEmpty && s.wanted)
  match c with
  | .setDetector _ => setter true
  | .setModelPath path => setter (s.cfg.modelPath ≠ path && s.cfg.detector ≠ "motion")
  | .setInferenceFps fps => setter (1 ≤ fps && fps ≤ 60)
  | .setEnabled true => s.stops.all fun st => s.state = .active && st.after ≠ .done
  | .setEnabled false => s.stops.all fun st => s.thread = none && st.after ≠ .restart
  | .applyConfig cfg => s.stops.all fun st =>
    !cfg.enabled && st.after ≠ .restart && (s.state ≠ .active || s.thread = none)
  | .shutdown => s.stops.all fun st => s.thread = none && !st.after.restarts s.cfg

/-- The condition on one step. -/
def Quiet (s : DetectionService) : Step → Prop
  | .call c _ => s.quiet c = true
  | _ => True

instance (s : DetectionService) : (a : Step) → Decidable (s.Quiet a)
  | .call c _ => inferInstanceAs (Decidable (s.quiet c = true))
  | .pollEnds _ => .isTrue trivial
  | .joined _ => .isTrue trivial
  | .resume _ _ => .isTrue trivial

/-- Every thread but this one has been joined once. -/
def JoinedBut (s : DetectionService) (t : Option ℕ) : Prop :=
  ∀ i th, s.threads[i]? = some th → t ≠ some i → th.joins = 1

def OnlyLive (s : DetectionService) (d : Option ℕ) : Prop :=
  ∀ i, s.detectors[i]? = some true → d = some i

/-- Nothing is left of the last detector. -/
structure Stopped (s : DetectionService) : Prop where
  state : s.state = .disabled ∨ s.state = .error
  thread : s.thread = none
  det : s.det = none
  joined : s.JoinedBut none
  live : s.OnlyLive none
  single : s.doubled = false

structure Started (s : DetectionService) (t d : ℕ) : Prop where
  state : s.state = .active
  thread : s.thread = some t
  det : s.det = some d
  unjoined : ∃ th, s.threads[t]? = some th ∧ th.joins = 0
  joined : s.JoinedBut (some t)
  live : s.OnlyLive (some d)
  single : s.doubled = false

/-- A stop whose join has returned; another call may have finished it. -/
structure Joined (s : DetectionService) : Prop where
  state : s.state = .active ∨ s.state = .disabled
  thread : s.thread = none
  joined : s.JoinedBut none
  live : s.OnlyLive s.det
  single : s.doubled = false

inductive Inv (s : DetectionService) : Prop
  | idle : s.stops = [] → s.Stopped → (s.wanted = true → s.state = .error) → Inv s
  | running (t d : ℕ) : s.stops = [] → s.Started t d → s.quit = false →
      s.threads[t]? = some ⟨false, 0⟩ → s.detectors[d]? = some true → s.wanted = true → Inv s
  | joining (t d : ℕ) (after : AfterStop) : s.stops = [⟨some t, after⟩] → s.Started t d →
      s.wanted = after.restarts s.cfg → Inv s
  | joined (after : AfterStop) : s.stops = [⟨none, after⟩] → s.Joined →
      s.wanted = after.restarts s.cfg → Inv s

variable {s : DetectionService}

theorem JoinedBut.snoc (h : s.JoinedBut none) {i : ℕ} {th : PollThread}
    (hi : (s.threads ++ [⟨false, 0⟩])[i]? = some th) (hne : some s.threads.length ≠ some i) :
    th.joins = 1 := by
  rcases Runs.getElem?_concat_eq_some hi with hold | ⟨heq, -⟩
  · exact h i th hold nofun
  · exact absurd (congrArg some heq) hne

theorem OnlyLive.snoc (h : s.OnlyLive none) {b : Bool} {i : ℕ}
    (hi : (s.detectors ++ [b])[i]? = some true) : b = true ∧ s.detectors.length = i := by
  rcases Runs.getElem?_concat_eq_some hi with hold | ⟨heq, hb⟩
  · exact absurd (h i hold) nofun
  · exact ⟨hb, heq⟩

theorem OnlyLive.dropDet (h : s.OnlyLive s.det) (i : ℕ) : s.dropDet[i]? ≠ some true := by
  intro hi
  unfold DetectionService.dropDet at hi
  cases hdet : s.det with
  | none =>
    rw [hdet] at hi h
    exact absurd (h i hi) nofun
  | some d =>
    rw [hdet] at hi h
    dsimp only [Option.elim] at hi
    rw [List.getElem?_set] at hi
    split_ifs at hi with hdi hlt
    · exact absurd (Option.some.inj hi) Bool.false_ne_true
    · exact hdi (Option.some.inj (h i hi))

theorem OnlyLive.not_contains (h : s.OnlyLive none) : s.detectors.contains true = false := by
  rw [Bool.eq_false_iff, ne_eq, List.contains_iff_mem]
  intro hmem
  obtain ⟨i, hi⟩ := List.mem_iff_getElem?.mp hmem
  exact absurd (h i hi) nofun

/-- A start from nothing comes to a running detector or to an error. -/
theorem inv_startLocked (answer : StartAnswer) (h : s.Stopped) (hstops : s.stops = [])
    (hwanted : s.wanted = true) : Inv (s.startLocked answer).2 := by
  obtain ⟨hstate, hthread, hdet, hjoined, hlive, hsingle⟩ := h
  have hoff : ¬ (s.state = .active ∨ s.state = .starting) := by
    obtain h | h := hstate <;> rw [h] <;> decide
  have hdrop : s.dropDet = s.detectors := by rw [DetectionService.dropDet, hdet]; rfl
  have hdoubled : (s.doubled || s.detectors.contains true) = false := by
    rw [hsingle, hlive.not_contains]
    rfl
  unfold DetectionService.startLocked
  rw [if_neg hoff]
  dsimp only
  rw [hdoubled, hdrop]
  cases answer with
  | noBase => exact .idle hstops ⟨.inr rfl, hthread, hdet, hjoined, hlive, hsingle⟩ fun _ => rfl
  | noBackend => exact .idle hstops ⟨.inr rfl, hthread, rfl, hjoined, hlive, hsingle⟩ fun _ => rfl
  | startFails backend r =>
    refine .idle hstops ⟨.inr rfl, hthread, rfl, hjoined, fun i hi => ?_, rfl⟩ fun _ => rfl
    exact absurd (hlive.snoc hi).1 Bool.false_ne_true
  | starts backend =>
    have hlast : (s.threads ++ [⟨false, 0⟩])[s.threads.length]? = some ⟨false, 0⟩ :=
      List.getElem?_concat_length
    refine .running s.threads.length s.detectors.length hstops
      ⟨rfl, rfl, rfl, ⟨_, hlast, rfl⟩, fun i th => hjoined.snoc, fun i hi => ?_, rfl⟩ rfl hlast
      List.getElem?_concat_length hwanted
    exact congrArg some (hlive.snoc hi).2

theorem stopped_finishStop (hthread : s.thread = none) (hjoined : s.JoinedBut none)
    (hlive : s.OnlyLive s.det) (hsingle : s.doubled = false) : s.finishStop.Stopped := by
  refine ⟨?_, hthread, rfl, hjoined, fun i hi => absurd hi (hlive.dropDet i), hsingle⟩
  by_cases herror : s.state = .error
  · exact .inr (if_pos herror)
  · exact .inl (if_neg herror)

theorem Stopped.finishStop (h : s.Stopped) : s.finishStop.Stopped :=
  stopped_finishStop h.thread h.joined (h.det ▸ h.live) h.single

theorem Joined.finishStop (h : s.Joined) : s.finishStop.Stopped :=
  stopped_finishStop h.thread h.joined h.live h.single

/-- Another call finishes a stop whose join has returned. -/
theorem Joined.finished (h : s.Joined) : s.finishStop.Joined := by
  refine ⟨.inr ?_, h.thread, h.joined, h.finishStop.live, h.single⟩
  obtain h | h := h.state <;> simp [DetectionService.finishStop, h]

theorem inv_afterStop (after : AfterStop) (answer : StartAnswer) (h : s.Stopped)
    (hstops : s.stops = []) (hwanted : s.wanted = after.restarts s.cfg) :
    Inv (s.afterStop after answer).2 := by
  cases after with
  | done => exact .idle hstops h fun hw => absurd (hwanted.symm.trans hw) Bool.false_ne_true
  | restart => exact inv_startLocked answer h hstops hwanted
  | ifEnabled =>
    unfold DetectionService.afterStop
    dsimp only
    split
    · rename_i hen
      exact inv_startLocked answer h hstops (hwanted.trans hen)
    · rename_i hen
      exact .idle hstops h fun hw => absurd (hwanted.symm.trans hw) hen

theorem stopThen_of_none (after : AfterStop) (answer : StartAnswer) (h : s.thread = none) :
    (s.stopThen after answer).2 =
      (({ s with quit := true } : DetectionService).finishStop.afterStop after answer).2 := by
  unfold DetectionService.stopThen
  dsimp only
  split
  · rename_i t ht
    exact absurd (h.symm.trans ht) nofun
  · rfl

theorem stopThen_of_some (after : AfterStop) (answer : StartAnswer) {t : ℕ}
    (h : s.thread = some t) : (s.stopThen after answer).2 =
      { s with quit := true, stops := s.stops ++ [⟨some t, after⟩] } := by
  unfold DetectionService.stopThen
  dsimp only
  split
  · rename_i t' ht
    rw [Option.some.inj (h.symm.trans ht)]
  · rename_i ht
    exact absurd (h.symm.trans ht) nofun

/-- A stop that no other one is under way with. -/
theorem inv_stopThen (after : AfterStop) (answer : StartAnswer)
    (h : s.Stopped ∨ ∃ t d, s.Started t d) (hstops : s.stops = [])
    (hwanted : s.wanted = after.restarts s.cfg) : Inv (s.stopThen after answer).2 := by
  obtain h | ⟨t, d, h⟩ := h
  · rw [stopThen_of_none after answer h.thread]
    have hquit : ({ s with quit := true } : DetectionService).Stopped :=
      ⟨h.state, h.thread, h.det, h.joined, h.live, h.single⟩
    exact inv_afterStop after answer hquit.finishStop hstops hwanted
  · rw [stopThen_of_some after answer h.thread, hstops]
    exact .joining t d after rfl
      ⟨h.state, h.thread, h.det, h.unjoined, h.joined, h.live, h.single⟩ hwanted

theorem Inv.up (h : Inv s) (hstops : s.stops = []) : s.Stopped ∨ ∃ t d, s.Started t d := by
  cases h with
  | idle _ h _ => exact .inl h
  | running t d _ h _ _ _ _ => exact .inr ⟨t, d, h⟩
  | joining t d after h => exact absurd (hstops.symm.trans h) nofun
  | joined after h => exact absurd (hstops.symm.trans h) nofun

theorem Inv.cfg (h : Inv s) (cfg : AiConfig) (hen : cfg.enabled = s.cfg.enabled) :
    Inv { s with cfg := cfg } := by
  have hrestarts : ∀ after : AfterStop, after.restarts cfg = after.restarts s.cfg := by
    intro after
    cases after
    · rfl
    · rfl
    · exact hen
  cases h with
  | idle hstops h hw => exact .idle hstops ⟨h.state, h.thread, h.det, h.joined, h.live, h.single⟩ hw
  | running t d hstops h hquit hth hdet hw =>
    exact .running t d hstops ⟨h.state, h.thread, h.det, h.unjoined, h.joined, h.live, h.single⟩
      hquit hth hdet hw
  | joining t d after hstops h hw =>
    exact .joining t d after hstops
      ⟨h.state, h.thread, h.det, h.unjoined, h.joined, h.live, h.single⟩
      (hw.trans (hrestarts after).symm)
  | joined after hstops h hw =>
    exact .joined after hstops ⟨h.state, h.thread, h.joined, h.live, h.single⟩
      (hw.trans (hrestarts after).symm)

/-- What a setter does that the running detector depends on. -/
theorem inv_setter (answer : StartAnswer) (h : Inv s)
    (hquiet : s.shouldRun = true → s.stops = [] ∧ s.wanted = true) :
    Inv (if s.shouldRun then s.stopThen .restart answer else (some .ok, s)).2 := by
  split
  · rename_i hrun
    obtain ⟨hstops, hwanted⟩ := hquiet hrun
    exact inv_stopThen .restart answer (h.up hstops) hstops hwanted
  · exact h

theorem not_starting (h : Inv s) : s.state ≠ .starting := by
  intro hstart
  cases h with
  | idle _ h _ => obtain h | h := h.state <;> cases hstart.symm.trans h
  | running t d _ h _ _ _ _ => cases hstart.symm.trans h.state
  | joining t d after _ h _ => cases hstart.symm.trans h.state
  | joined after _ h _ => obtain h | h := h.state <;> cases hstart.symm.trans h

theorem inv_enable (answer : StartAnswer) (h : Inv s)
    (hquiet : ∀ st ∈ s.stops, s.state = .active ∧ st.after ≠ .done) :
    Inv (({ s with wanted := true } : DetectionService).setEnabled true answer).2 := by
  let s' : DetectionService := { s with wanted := true, cfg := { s.cfg with enabled := true } }
  show Inv (s'.startLocked answer).2
  have hearly : s.state = .active → (s'.startLocked answer).2 = s' := by
    intro hact
    unfold DetectionService.startLocked
    rw [if_pos (.inl hact)]
  have hrestarts : ∀ after : AfterStop, after ≠ .done → true = after.restarts s'.cfg := by
    intro after hne
    cases after
    · exact absurd rfl hne
    · rfl
    · rfl
  cases h with
  | idle hstops h _ =>
    exact inv_startLocked answer ⟨h.state, h.thread, h.det, h.joined, h.live, h.single⟩ hstops rfl
  | running t d hstops h hquit hth hdet _ =>
    rw [hearly h.state]
    exact .running t d hstops ⟨h.state, h.thread, h.det, h.unjoined, h.joined, h.live, h.single⟩
      hquit hth hdet rfl
  | joining t d after hstops h _ =>
    obtain ⟨-, hne⟩ := hquiet ⟨some t, after⟩ (by rw [hstops]; exact List.mem_singleton_self _)
    rw [hearly h.state]
    exact .joining t d after hstops
      ⟨h.state, h.thread, h.det, h.unjoined, h.joined, h.live, h.single⟩ (hrestarts after hne)
  | joined after hstops h _ =>
    obtain ⟨hact, hne⟩ := hquiet ⟨none, after⟩ (by rw [hstops]; exact List.mem_singleton_self _)
    rw [hearly hact]
    exact .joined after hstops ⟨h.state, h.thread, h.joined, h.live, h.single⟩ (hrestarts after hne)

theorem afterStop_of_not_restarts {after : AfterStop} (answer : StartAnswer)
    (h : after.restarts s.cfg = false) : (s.afterStop after answer).2 = s := by
  cases after with
  | done => rfl
  | restart => exact absurd h Bool.true_eq_false.mp
  | ifEnabled =>
    unfold DetectionService.afterStop
    dsimp only
    rw [show s.cfg.enabled = false from h]
    rfl

theorem Stopped.asked (h : s.Stopped) (cfg : AiConfig) (w : Bool) :
    ({ s with wanted := w, cfg := cfg } : DetectionService).Stopped :=
  ⟨h.state, h.thread, h.det, h.joined, h.live, h.single⟩

/-- A stop of a call that asks for what it does behind it: alone, or where the join of another one
has returned and neither starts anything. -/
theorem inv_stopCall (cfg : AiConfig) (after' : AfterStop) (answer : StartAnswer) (h : Inv s)
    (hquiet : ∀ st ∈ s.stops,
      s.thread = none ∧ st.after.restarts cfg = false ∧ after'.restarts cfg = false) :
    Inv (({ s with wanted := after'.restarts cfg, cfg := cfg } :
      DetectionService).stopThen after' answer).2 := by
  let s' : DetectionService := { s with wanted := after'.restarts cfg, cfg := cfg }
  show Inv (s'.stopThen after' answer).2
  by_cases hstops : s.stops = []
  · refine inv_stopThen after' answer ?_ hstops rfl
    obtain h | ⟨t, d, h⟩ := h.up hstops
    · exact .inl (h.asked cfg _)
    · exact .inr ⟨t, d, h.state, h.thread, h.det, h.unjoined, h.joined, h.live, h.single⟩
  · cases h with
    | idle hnil _ _ => exact absurd hnil hstops
    | running t d hnil _ _ _ _ _ => exact absurd hnil hstops
    | joining t d after hone h _ =>
      obtain ⟨hthread, -⟩ := hquiet ⟨some t, after⟩ (by rw [hone]; exact List.mem_singleton_self _)
      exact absurd (hthread.symm.trans h.thread) nofun
    | joined after hone h _ =>
      obtain ⟨hthread, hafter, hoff⟩ := hquiet ⟨none, after⟩
        (by rw [hone]; exact List.mem_singleton_self _)
      let q : DetectionService := { s' with quit := true }
      have hstop : (s'.stopThen after' answer).2 = q.finishStop := by
        rw [stopThen_of_none after' answer (s := s') hthread]
        exact afterStop_of_not_restarts (s := q.finishStop) answer hoff
      have hjoined : q.Joined := ⟨h.state, h.thread, h.joined, h.live, h.single⟩
      rw [hstop]
      exact .joined after hone hjoined.finished (hoff.trans hafter.symm)

theorem inv_applyConfig (cfg : AiConfig) (answer : StartAnswer) (h : Inv s)
    (hquiet : s.quiet (.applyConfig cfg) = true) :
    Inv (({ s with wanted := cfg.enabled } : DetectionService).applyConfig cfg answer).2 := by
  have hquiet' : ∀ st ∈ s.stops,
      cfg.enabled = false ∧ st.after ≠ .restart ∧ (s.state = .active → s.thread = none) := by
    intro st hst
    have hall := List.all_eq_true.mp hquiet st hst
    simp at hall
    exact ⟨hall.1.1, hall.1.2, fun hact => hall.2.resolve_left (absurd hact)⟩
  have hrestarts : ∀ st ∈ s.stops, st.after.restarts cfg = false := by
    intro st hst
    obtain ⟨hoff, hne, -⟩ := hquiet' st hst
    cases hafter : st.after
    · rfl
    · exact absurd hafter hne
    · exact hoff
  unfold DetectionService.applyConfig
  dsimp only
  split
  · rename_i hwas
    have hact : s.state = .active := hwas.resolve_right (not_starting h)
    refine inv_stopCall cfg .ifEnabled answer h fun st hst => ?_
    exact ⟨(hquiet' st hst).2.2 hact, hrestarts st hst, (hquiet' st hst).1⟩
  · rename_i hwas
    cases h with
    | idle hstops h _ => exact inv_afterStop .ifEnabled answer (h.asked cfg _) hstops rfl
    | running t d _ h _ _ _ _ => exact absurd (.inl h.state) hwas
    | joining t d after _ h _ => exact absurd (.inl h.state) hwas
    | joined after hone h _ =>
      have hmem : ⟨none, after⟩ ∈ s.stops := by rw [hone]; exact List.mem_singleton_self _
      have hoff := (hquiet' _ hmem).1
      let s' : DetectionService := { s with wanted := cfg.enabled, cfg := cfg }
      have hsame : (s'.afterStop .ifEnabled answer).2 = s' :=
        afterStop_of_not_restarts (s := s') answer hoff
      show Inv (s'.afterStop .ifEnabled answer).2
      rw [hsame]
      exact .joined after hone ⟨h.state, h.thread, h.joined, h.live, h.single⟩
        (hoff.trans (hrestarts _ hmem).symm)

/-- What `quiet` says of a setter. -/
theorem setter_quiet {reads : Bool}
    (h : (!(reads && s.shouldRun) || (s.stops.isEmpty && s.wanted)) = true) (hreads : reads = true) :
    s.shouldRun = true → s.stops = [] ∧ s.wanted = true := by
  intro hrun
  simpa [hreads, hrun] using h

theorem inv_call (c : Call) (answer : StartAnswer) (h : Inv s) (hquiet : s.quiet c = true) :
    Inv (s.call c answer).2 := by
  cases c with
  | setEnabled on =>
    cases on with
    | true => exact inv_enable answer h (by simpa [quiet] using hquiet)
    | false =>
      refine inv_stopCall (s := s) { s.cfg with enabled := false } .done answer h fun st hst => ?_
      have hall := List.all_eq_true.mp hquiet st hst
      simp at hall
      refine ⟨hall.1, ?_, rfl⟩
      cases hafter : st.after
      · rfl
      · exact absurd hafter hall.2
      · rfl
  | setDetector name =>
    exact inv_setter answer (h.cfg { s.cfg with detector := name } rfl)
      (setter_quiet hquiet rfl)
  | setModelPath path =>
    show Inv (s.setModelPath path answer).2
    unfold DetectionService.setModelPath
    split
    · exact h
    · rename_i hpath
      by_cases hmotion : s.cfg.detector = "motion"
      · simpa [hmotion] using h.cfg { s.cfg with modelPath := path } rfl
      · have hset := inv_setter answer (h.cfg { s.cfg with modelPath := path } rfl)
          (setter_quiet hquiet (by simp [hpath, hmotion]))
        simpa [hmotion] using hset
  | setInferenceFps fps =>
    show Inv (s.setInferenceFps fps answer).2
    unfold DetectionService.setInferenceFps
    split
    · exact h
    · rename_i hrange
      refine inv_setter answer (h.cfg { s.cfg with inferenceFps := fps } rfl)
        (setter_quiet hquiet ?_)
      simp only [Bool.and_eq_true, decide_eq_true_iff]
      omega
  | applyConfig cfg => exact inv_applyConfig cfg answer h hquiet
  | shutdown =>
    refine inv_stopCall (s := s) s.cfg .done answer h fun st hst => ?_
    have hall := List.all_eq_true.mp hquiet st hst
    simp at hall
    exact ⟨hall.1, hall.2, rfl⟩

theorem inv_pollEnds (t : ℕ) (h : Inv s) : Inv (s.pollEnds t) := by
  unfold DetectionService.pollEnds
  split
  · rename_i hquit
    have hjoins : ∀ {i : ℕ} {th : PollThread},
        (s.threads.modify t fun th => { th with ended := true })[i]? = some th →
        ∃ th', s.threads[i]? = some th' ∧ th'.joins = th.joins := by
      intro i th hi
      rw [List.getElem?_modify] at hi
      cases hth : s.threads[i]? with
      | none => simp [hth] at hi
      | some th' =>
        refine ⟨th', rfl, ?_⟩
        rw [hth] at hi
        obtain rfl := Option.some.inj hi
        dsimp only
        split <;> rfl
    have hbut : ∀ {t' : Option ℕ}, s.JoinedBut t' → ∀ (i : ℕ) (th : PollThread),
        (s.threads.modify t fun th => { th with ended := true })[i]? = some th →
        t' ≠ some i → th.joins = 1 := by
      intro t' hb i th hi hne
      obtain ⟨th', hth', hj⟩ := hjoins hi
      exact hj ▸ hb i th' hth' hne
    cases h with
    | idle hstops h hw =>
      exact .idle hstops ⟨h.state, h.thread, h.det, hbut h.joined, h.live, h.single⟩ hw
    | running t' d _ h hoff _ _ _ => exact absurd (hquit.symm.trans hoff) Bool.true_eq_false.mp
    | joining t' d after hstops h hw =>
      obtain ⟨th, hth, hj⟩ := h.unjoined
      refine .joining t' d after hstops ⟨h.state, h.thread, h.det, ?_, hbut h.joined, h.live,
        h.single⟩ hw
      dsimp only
      rw [List.getElem?_modify, hth]
      refine ⟨_, rfl, ?_⟩
      dsimp only
      split <;> exact hj
    | joined after hstops h hw =>
      exact .joined after hstops ⟨h.state, h.thread, hbut h.joined, h.live, h.single⟩ hw
  · exact h

theorem inv_joined (i : ℕ) (h : Inv s) : Inv (s.joined i) := by
  unfold DetectionService.joined
  split
  · rename_i t' after' hi
    split
    · cases h with
      | idle hstops _ _ => exact absurd (hstops ▸ hi) nofun
      | running t d hstops _ _ _ _ _ => exact absurd (hstops ▸ hi) nofun
      | joined after hone _ _ =>
        rw [hone] at hi
        exact absurd (List.mem_singleton.mp (List.mem_of_getElem? hi)) nofun
      | joining t d after hone h hw =>
        have hmem := List.mem_of_getElem? hi
        rw [hone] at hmem hi
        obtain ⟨ht, ha⟩ := Stop.mk.inj (List.mem_singleton.mp hmem)
        obtain rfl := Option.some.inj ht
        obtain rfl := ha
        obtain rfl : i = 0 := by
          have hlt := (List.getElem?_eq_some_iff.mp hi).1
          rw [List.length_singleton] at hlt
          omega
        have hjoined : ∀ (i : ℕ) (th : PollThread),
            (s.threads.modify t' fun th => { th with joins := th.joins + 1 })[i]? = some th →
            th.joins = 1 := by
          intro i th hth
          obtain ⟨th', hth', hj⟩ := h.unjoined
          by_cases hit : t' = i
          · obtain rfl := hit
            rw [List.getElem?_modify_eq, hth'] at hth
            rw [← Option.some.inj hth]
            exact congrArg (· + 1) hj
          · rw [List.getElem?_modify_ne _ _ hit] at hth
            exact h.joined i th hth fun heq => hit (Option.some.inj heq)
        refine .joined after' ?_ ⟨.inl h.state, rfl, fun i th hth _ => hjoined i th hth,
          h.det ▸ h.live, h.single⟩ hw
        dsimp only
        rw [hone]
        rfl
    · exact h
  · exact h

theorem inv_resume (i : ℕ) (answer : StartAnswer) (h : Inv s) : Inv (s.resume i answer) := by
  unfold DetectionService.resume
  split
  · rename_i after' hi
    cases h with
    | idle hstops _ _ => exact absurd (hstops ▸ hi) nofun
    | running t d hstops _ _ _ _ _ => exact absurd (hstops ▸ hi) nofun
    | joining t d after hone _ _ =>
      rw [hone] at hi
      exact absurd (List.mem_singleton.mp (List.mem_of_getElem? hi)) nofun
    | joined after hone h hw =>
      have hmem := List.mem_of_getElem? hi
      rw [hone] at hmem hi
      obtain ⟨-, rfl⟩ := Stop.mk.inj (List.mem_singleton.mp hmem)
      obtain rfl : i = 0 := by
        have hlt := (List.getElem?_eq_some_iff.mp hi).1
        rw [List.length_singleton] at hlt
        omega
      have hgone : ({ s with stops := s.stops.eraseIdx 0 } : DetectionService).Joined :=
        ⟨h.state, h.thread, h.joined, h.live, h.single⟩
      refine inv_afterStop after' answer hgone.finishStop ?_ hw
      show s.stops.eraseIdx 0 = []
      rw [hone]
      rfl
  · exact h

theorem inv_step (a : Step) (h : Inv s) (hquiet : s.Quiet a) : Inv (s.step a) := by
  cases a with
  | call c answer => exact inv_call c answer h hquiet
  | pollEnds t => exact inv_pollEnds t h
  | joined i => exact inv_joined i h
  | resume i answer => exact inv_resume i answer h

theorem inv_create (cfg : AiConfig) (answer : StartAnswer) : Inv (create cfg answer) := by
  have hfirst (w : Bool) : ({ cfg := cfg, wanted := w } : DetectionService).Stopped :=
    ⟨.inl rfl, rfl, rfl, nofun, nofun, rfl⟩
  unfold create
  dsimp only
  split
  · rename_i hen
    exact inv_startLocked answer (hfirst cfg.enabled) rfl hen
  · rename_i hen
    exact .idle rfl (hfirst cfg.enabled) fun hw => absurd hw hen

theorem JoinedBut.le_one {t : ℕ} (h : s.JoinedBut (some t))
    (ht : ∃ th, s.threads[t]? = some th ∧ th.joins = 0) : ∀ th ∈ s.threads, th.joins ≤ 1 := by
  intro th hth
  obtain ⟨i, hi⟩ := List.mem_iff_getElem?.mp hth
  by_cases hti : t = i
  · obtain ⟨th', hth', hj⟩ := ht
    rw [hti, hi] at hth'
    rw [Option.some.inj hth', hj]
    exact Nat.zero_le 1
  · exact (h i th hi fun heq => hti (Option.some.inj heq)).le

theorem Inv.serialised (h : Inv s) : s.Serialised := by
  cases h with
  | idle hstops h hw =>
    refine ⟨fun th hth => ?_, h.single, fun _ i th hi _ => h.joined i th hi nofun, fun _ => ?_⟩
    · obtain ⟨i, hi⟩ := List.mem_iff_getElem?.mp hth
      exact (h.joined i th hi nofun).le
    · obtain hoff | herror := h.state
      · left
        constructor
        · intro hrun
          exact absurd (hoff.symm.trans hrun.1) nofun
        · intro hwanted
          exact absurd (hoff.symm.trans (hw hwanted)) nofun
      · exact .inr herror
  | running t d hstops h hquit hth hdet hw =>
    refine ⟨h.joined.le_one h.unjoined, h.single, fun _ i th hi hne => ?_, fun _ => .inl ?_⟩
    · exact h.joined i th hi (h.thread ▸ hne)
    · exact ⟨fun _ => hw, fun _ => ⟨h.state, t, d, h.thread, hth, h.det, hdet⟩⟩
  | joining t d after hone h _ =>
    exact ⟨h.joined.le_one h.unjoined, h.single, fun hnil => absurd (hnil.symm.trans hone) nofun,
      fun hnil => absurd (hnil.symm.trans hone) nofun⟩
  | joined after hone h _ =>
    refine ⟨fun th hth => ?_, h.single, fun hnil => absurd (hnil.symm.trans hone) nofun,
      fun hnil => absurd (hnil.symm.trans hone) nofun⟩
    obtain ⟨i, hi⟩ := List.mem_iff_getElem?.mp hth
    exact (h.joined i th hi nofun).le

/-- In every run whose calls keep out of each other's stops the detector is controlled as if one
call came after the other. -/
theorem serialised_of_quiet (cfg : AiConfig) (answer : StartAnswer) {steps : List Step}
    (h : Along step Quiet (create cfg answer) steps) :
    Always step Serialised (create cfg answer) steps :=
  (always_of_along (fun _ a hs hq => inv_step a hs hq) (inv_create cfg answer) h).mono
    fun _ hs => hs.serialised

/-- A new model for the motion detector while a restart of it joins. -/
theorem serialised_of_quiet_restart :
    Always step Serialised (create { enabled := true } (.starts "imp_ivs_move"))
      [.call (.setInferenceFps 10) .noBase, .call (.setModelPath "/tmp/m") .noBase, .pollEnds 0,
        .joined 0, .resume 0 (.starts "imp_ivs_move")] :=
  serialised_of_quiet _ _ (by decide)

/-- A second restart joins the thread that the first one joins; a call that switches the detector
on while another one switches it off is told that it is on. -/
theorem not_serialised :
    ¬ Always step Serialised (create { enabled := true } (.starts "imp_ivs_move"))
      [.call (.setDetector "person") .noBase, .call (.setInferenceFps 10) .noBase, .pollEnds 0,
        .joined 0, .joined 1] ∧
    ¬ Always step Serialised (create { enabled := true } (.starts "imp_ivs_move"))
      [.call (.setEnabled false) .noBase, .call (.setEnabled true) (.starts "imp_ivs_move"),
        .pollEnds 0, .joined 0, .resume 0 .noBase] := by
  constructor
  · intro h
    have hlast := (h _ (List.prefix_refl _)).joinedOnce ⟨true, 2⟩ (by decide)
    exact absurd hlast (by decide)
  · intro h
    have hlast := (h _ (List.prefix_refl _)).asAsked (by decide)
    obtain hrun | herror := hlast
    · exact absurd (hrun.mpr (by decide)).1 (by decide)
    · exact absurd herror (by decide)

end DetectionService

end Machino.Detection
