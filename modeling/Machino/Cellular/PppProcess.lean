import Machino.Cellular.PppLink

namespace Machino.Cellular.PppLink

open Effects Runs

/-- The `pppd` under the link, and whether a start has been asked for beside one that runs. -/
structure Process where
  alive : Bool := false
  doubled : Bool := false
  deriving DecidableEq

/-- What the next call is answered, whether the process ends by itself before that, and whether a
stop gets through. -/
structure Fate where
  answer : (e : Call) → Answer e
  ends : Bool := false
  stops : Bool := true

/-- The process may end at any time. -/
def Process.pass (w : Process) (f : Fate) : Process := { w with alive := w.alive && !f.ends }

/-- A process runs from the start that is granted until it ends or is stopped. -/
def Process.record (w : Process) (f : Fate) : Call → Process
  | .start req => { alive := w.alive || f.answer (.start req), doubled := w.doubled || w.alive }
  | .stop => { w with alive := w.alive && !f.stops }
  | .now | .command _ _ | .status | .note _ => w

def Process.exec (e : Call) (f : Fate) (w : Process) : Answer e × Process :=
  (f.answer e, (w.pass f).record f e)

def supervised : Machine Call Answer Fate Process Job Empty PppLink where
  exec := Process.exec
  job := Job.run
  boot b := b.elim

def atRest (w : Process) (m : PppLink) : State Call Answer Process Job Empty PppLink where
  world := w
  job := .inl .wait
  proc := .ret m

/-- The states in which nothing may run. -/
def quiet (s : DataLinkState) : Bool :=
  s = .failed || s = .disabled || s = .waitDevice || s = .waitAt

/-- The state the link shows between two operations. -/
def shown (s : State Call Answer Process Job Empty PppLink) : Option DataLinkState :=
  match s.proc with
  | .ret m => some m.st.state
  | .call _ _ => none

/-- No start has been asked for beside a process that runs, and none runs where a quiet state is
shown. -/
def OneProcess (s : State Call Answer Process Job Empty PppLink) : Prop :=
  s.world.doubled = false ∧ ((shown s).any quiet = true → s.world.alive = false)

/-- A tick that gets as far as to look at the process, if there is one. -/
def Job.looks : Job → Bool
  | .tick status => status.present && status.responsive && status.sim = .ready &&
      regIsRegistered status.registration
  | _ => false

/-- A report that nothing runs. -/
def idleReport (report : Option PppStatus) : Bool := report.any fun ps => !ps.running

/-- A tick that looks is told that nothing runs only where that is so, and a process that is to
stop does. -/
def truthful : Rules Call Fate Process Job Empty PppLink where
  starts _ _ _ := True
  outcome j w e f :=
    match e with
    | .status => Sum.elim Job.looks Empty.elim j = true → idleReport (f.answer .status) = true →
        (w.pass f).alive = false
    | .stop => (w.pass f).alive = true → f.stops = true
    | .now | .command _ _ | .start _ | .note _ => True
  reboots b _ := b.elim

instance (j : Job) (m : PppLink) (w : Process) : Decidable (truthful.starts j m w) :=
  .isTrue trivial

instance (j : Job ⊕ Empty) (w : Process) (e : Call) (f : Fate) :
    Decidable (truthful.outcome j w e f) :=
  match e with
  | .status => inferInstanceAs (Decidable (_ = _ → _ = _ → _ = _))
  | .stop => inferInstanceAs (Decidable (_ = _ → _ = _))
  | .now | .command _ _ | .start _ | .note _ => .isTrue trivial

instance (b : Empty) (w : Process) : Decidable (truthful.reboots b w) := b.elim

/-- A process runs only where the link knows of it, and the link knows of it only while it wants
one and is not quiet. -/
structure Known (m : PppLink) (w : Process) : Prop where
  single : w.doubled = false
  known : w.alive = true → m.started = true
  wanted : m.started = true → m.wantUp = true ∧ quiet m.st.state = false

/-- Nothing runs, and there never were two. -/
structure Clean (w : Process) : Prop where
  single : w.doubled = false
  dead : w.alive = false

/-- Of two processes, nothing has happened to the second but that it may have ended. -/
structure Process.Leads (w w' : Process) : Prop where
  single : w'.doubled = w.doubled
  alive : w'.alive = true → w.alive = true

variable {w : Process} {m : PppLink} {j : Job} {α : Type}

theorem Known.of_started {m' : PppLink} (h : Known m w) (hs : m'.started = m.started)
    (hw : m'.wantUp = m.wantUp) (hq : quiet m.st.state = false → quiet m'.st.state = false) :
    Known m' w := by
  refine ⟨h.single, fun ha => hs.trans (h.known ha), fun hm => ?_⟩
  obtain ⟨hwant, hquiet⟩ := h.wanted (hs.symm.trans hm)
  exact ⟨hw.trans hwant, hq hquiet⟩

theorem Known.leads {w' : Process} (h : Known m w) (hl : w.Leads w') : Known m w' :=
  ⟨hl.single.trans h.single, fun ha => h.known (hl.alive ha), h.wanted⟩

theorem Clean.known (h : Clean w) (hs : m.started = false) : Known m w := by
  refine ⟨h.single, fun ha => ?_, fun hm => ?_⟩
  · exact absurd (h.dead.symm.trans ha) Bool.false_ne_true
  · exact absurd (hs.symm.trans hm) Bool.false_ne_true

theorem Known.clean (h : Known m w) (hs : m.started = false) : Clean w := by
  refine ⟨h.single, Bool.eq_false_iff.mpr fun ha => ?_⟩
  exact Bool.false_ne_true (hs.symm.trans (h.known ha))

theorem Clean.leads {w' : Process} (h : Clean w) (hl : w.Leads w') : Clean w' :=
  ⟨hl.single.trans h.single, Bool.eq_false_iff.mpr fun ha =>
    Bool.false_ne_true (h.dead.symm.trans (hl.alive ha))⟩

theorem Process.leads_pass (w : Process) (f : Fate) : w.Leads (w.pass f) :=
  ⟨rfl, fun h => (Bool.and_eq_true _ _ ▸ h).1⟩

/-- Every call but a start leaves the process as it is, or without one. -/
theorem Process.leads_exec {e : Call} (he : ∀ req, e ≠ .start req) (f : Fate) (w : Process) :
    w.Leads (Process.exec e f w).2 := by
  cases e with
  | start req => exact absurd rfl (he req)
  | stop =>
    exact ⟨rfl, fun h => (w.leads_pass f).alive (Bool.and_eq_true _ _ ▸ h).1⟩
  | now | command _ _ | status | note _ => exact w.leads_pass f

/-- A start beside nothing that runs doubles nothing, and what runs then has been granted. -/
theorem Clean.start (h : Clean w) (req : PppRequest) (f : Fate) :
    (Process.exec (.start req) f w).2.doubled = false ∧
      ((Process.exec (.start req) f w).2.alive = true →
        (Process.exec (.start req) f w).1 = true) := by
  have hpassed : Clean (w.pass f) := h.leads (w.leads_pass f)
  constructor
  · show ((w.pass f).doubled || (w.pass f).alive) = false
    rw [hpassed.single, hpassed.dead]
    rfl
  · show ((w.pass f).alive || f.answer (.start req)) = true → _
    rw [hpassed.dead]
    exact id

/-- Whatever the calls are truthfully answered, there is one process at most, and `Q` holds in the
end. -/
abbrev Pp (j : Job) (p : Ppp α) (w : Process) (Q : α → Process → Prop) : Prop :=
  p.Holds Process.exec (truthful.outcome (.inl j)) (fun w => w.doubled = false) w Q

theorem pp_ask {e : Call} {k : Answer e → Ppp α} {Q : α → Process → Prop}
    (he : ∀ req, e ≠ .start req) (h : w.doubled = false)
    (hk : ∀ a w', w.Leads w' → Pp j (k a) w' Q) : Pp j (Prog.perform e >>= k) w Q :=
  Prog.holds_ask h fun f _ => hk _ _ (Process.leads_exec he f w)

theorem pp_stopProcess (h : w.doubled = false) (hm : w.alive = true → m.started = true) :
    Pp j (stopProcess m) w fun m' w' => Clean w' ∧ m'.started = false := by
  unfold stopProcess
  split
  · refine Prog.holds_ask (e := Call.stop) h fun f hf => ?_
    have hl := Process.leads_exec (e := .stop) nofun f w
    refine ⟨hl.single.trans h, ⟨hl.single.trans h, ?_⟩, rfl⟩
    show ((w.pass f).alive && !f.stops) = false
    cases ha : (w.pass f).alive with
    | false => rfl
    | true => rw [hf ha]; rfl
  · rename_i hs
    exact ⟨h, ⟨h, Bool.eq_false_iff.mpr fun ha => hs (hm ha)⟩, Bool.eq_false_iff.mpr hs⟩

theorem pp_fail {detail : String} (h : w.doubled = false)
    (hm : w.alive = true → m.started = true) : Pp j (fail detail m) w Known := by
  unfold fail
  refine pp_ask (e := .now) nofun h fun t w₁ h₁ => ?_
  refine pp_ask (e := .note _) nofun (h₁.single.trans h) fun _ w₂ h₂ => ?_
  have hsingle : w₂.doubled = false := h₂.single.trans (h₁.single.trans h)
  refine Prog.holds_bind.mpr ((pp_stopProcess hsingle ?_).mono ?_)
  · exact fun ha => hm (h₁.alive (h₂.alive ha))
  · exact fun m' w' hw h' => ⟨hw, h'.1.known h'.2⟩

theorem pp_connect (h : Known m w) : Pp j (connect m) w Known := by
  unfold connect
  split
  · exact ⟨h.single, h⟩
  · rename_i hw
    have hs : m.started = false := Bool.eq_false_iff.mpr fun hs => hw (h.wanted hs).1
    refine pp_ask (e := .note _) nofun h.single fun _ w₁ h₁ => ?_
    exact ⟨h₁.single.trans h.single, ((h.clean hs).leads h₁).known hs⟩

theorem pp_disconnect (h : Known m w) : Pp j (disconnect m) w Known := by
  unfold disconnect
  refine pp_ask (e := .note _) nofun h.single fun _ w₁ h₁ => ?_
  refine Prog.holds_bind.mpr ((pp_stopProcess (h₁.single.trans h.single) ?_).mono ?_)
  · exact fun ha => h.known (h₁.alive ha)
  · exact fun m' w' hw h' => ⟨hw, h'.1.known h'.2⟩

theorem pp_modemGone {present : Bool} (h : Known m w) : Pp j (modemGone present m) w Known := by
  unfold modemGone
  refine Prog.holds_bind.mpr ((pp_stopProcess h.single h.known).mono ?_)
  intro m' w' hw h'
  dsimp only
  split
  · exact ⟨hw, h'.1.known h'.2⟩
  · exact ⟨hw, h'.1.known h'.2⟩

theorem pp_negotiate {ps : PppStatus} (h : Known m w) : Pp j (negotiate ps m) w Known := by
  unfold negotiate
  refine pp_ask (e := .now) nofun h.single fun t w₁ h₁ => ?_
  have hkept : Known m w₁ := h.leads h₁
  split
  · exact pp_fail (m := { m with st := { m.st with interfaceName := ps.ifname } }) hkept.single
      hkept.known
  split
  · exact ⟨hkept.single, hkept.of_started rfl rfl fun _ => rfl⟩
  · exact ⟨hkept.single, hkept.of_started rfl rfl fun _ => rfl⟩

/-- What is reported not to run is not stopped, and need not be. -/
theorem pp_supervise {ps : Option PppStatus} (h : Known m w)
    (hidle : idleReport ps = true → w.alive = false) : Pp j (supervise ps m) w Known := by
  unfold supervise
  split
  · exact ⟨h.single, h.of_started rfl rfl id⟩
  · rename_i ps
    split
    · have hdead := hidle ‹_›
      exact pp_fail h.single fun ha => absurd (hdead.symm.trans ha) Bool.false_ne_true
    split
    · exact ⟨h.single, h.of_started rfl rfl fun _ => rfl⟩
    · exact pp_negotiate h

theorem pp_dial (h : Clean w) (hs : m.started = false) (hw : m.wantUp = true) :
    Pp j (dial m) w Known := by
  have hfail {detail : String} {m' : PppLink} {w' : Process} (h' : Clean w') :
      Pp j (fail detail m') w' Known :=
    pp_fail h'.single fun ha => absurd (h'.dead.symm.trans ha) Bool.false_ne_true
  unfold dial
  split
  · exact ⟨h.single, h.known hs⟩
  split
  · exact hfail h
  refine pp_ask (e := .command _ _) nofun h.single fun _ w₁ h₁ => ?_
  refine pp_ask (e := .command _ _) nofun (h.leads h₁).single fun reply w₂ h₂ => ?_
  have hclean : Clean w₂ := (h.leads h₁).leads h₂
  split
  · exact hfail hclean
  refine Prog.holds_ask (e := Call.start _) hclean.single fun f _ => ?_
  obtain ⟨hsingle, hgranted⟩ := hclean.start _ f
  split
  · rename_i hrefused
    exact pp_fail hsingle fun ha => absurd (hgranted ha) (by simpa using hrefused)
  · refine pp_ask (e := .now) nofun hsingle fun t w₃ h₃ => ?_
    have hsingle' : w₃.doubled = false := h₃.single.trans hsingle
    exact ⟨hsingle', hsingle', fun _ => rfl, fun _ => ⟨hw, rfl⟩⟩

theorem pp_waiting (h : w.doubled = false) : Pp j (waiting m) w fun _ w' => w.Leads w' := by
  unfold waiting
  split
  · exact ⟨h, rfl, id⟩
  · exact pp_ask (e := .now) nofun h fun t w₁ h₁ => ⟨h₁.single.trans h, h₁⟩

theorem pp_proceed {status : CellularStatus} {ps : Option PppStatus} (h : Known m w)
    (hw : m.wantUp = true)
    (hidle : status.sim = .ready → regIsRegistered status.registration = true →
      idleReport ps = true → w.alive = false) : Pp j (proceed status ps m) w Known := by
  unfold proceed
  refine Prog.holds_bind.mpr ((pp_waiting h.single).mono fun waits w₁ hw₁ h₁ => ?_)
  have hkept : Known m w₁ := h.leads h₁
  split
  · exact ⟨hw₁, hkept⟩
  split
  · exact ⟨hw₁, hkept.of_started rfl rfl fun _ => rfl⟩
  split
  · exact ⟨hw₁, hkept.of_started rfl rfl fun _ => rfl⟩
  rename_i hsim hreg
  split
  · refine pp_supervise hkept fun hreport => Bool.eq_false_iff.mpr fun ha => ?_
    have hdead := hidle (by simpa using hsim) (by simpa using hreg) hreport
    exact Bool.false_ne_true (hdead.symm.trans (h₁.alive ha))
  · rename_i hs
    have hstarted : m.started = false := Bool.eq_false_iff.mpr hs
    exact pp_dial (hkept.clean hstarted) hstarted hw

theorem pp_tick {status : CellularStatus} (h : Known m w) :
    Pp (.tick status) (tick status m) w Known := by
  unfold tick
  refine pp_ask (e := .note _) nofun h.single fun _ w₁ h₁ => ?_
  have hkept : Known m w₁ := h.leads h₁
  split
  · split
    · exact pp_disconnect hkept
    · exact ⟨hkept.single, hkept⟩
  rename_i hw
  refine Prog.holds_ask (e := Call.status) hkept.single fun f hf => ?_
  have hpassed : Known m (w₁.pass f) := hkept.leads (w₁.leads_pass f)
  split
  · exact pp_modemGone hpassed
  · rename_i hthere
    refine pp_proceed hpassed (by simpa using hw) fun hsim hreg => hf ?_
    have hanswers : status.present = true ∧ status.responsive = true := by simpa using hthere
    show (_ && _ && decide _ && _) = true
    rw [hanswers.1, hanswers.2, hsim, hreg]
    rfl

theorem keeps_one : supervised.Keeps truthful (fun w => w.doubled = false) Known where
  job j m w _ h _ := by
    cases j with
    | connect => exact pp_connect h
    | disconnect => exact pp_disconnect h
    | setConfig c => exact ⟨h.single, h.of_started rfl rfl id⟩
    | setModemPort tty => exact ⟨h.single, h.of_started rfl rfl id⟩
    | tick status => exact pp_tick h
    | wait =>
      refine pp_ask (e := .now) nofun h.single fun _ w₁ h₁ => ?_
      exact ⟨h₁.single.trans h.single, h.leads h₁⟩
  boot b := b.elim

/-- In every run whose reports do not belie the process, and whose stops get through, there is one
process at most, and none while the link is quiet. -/
theorem one_process_run (is : List (Input Fate Job Empty))
    (h : Along supervised.step truthful.Admissible (atRest {} {}) is) :
    Always supervised.step OneProcess (atRest {} {}) is := by
  have hclean : Clean {} := ⟨rfl, rfl⟩
  have hgood : supervised.Good truthful (fun w => w.doubled = false) Known (atRest {} {}) :=
    ⟨rfl, hclean.known rfl⟩
  refine (keeps_one.run_idle hgood h).mono fun s hs => ⟨hs.1, fun hquiet => ?_⟩
  cases hproc : s.proc with
  | call e k => simp [shown, hproc] at hquiet
  | ret m =>
    have hquiet' : quiet m.st.state = true := by simpa [shown, hproc] using hquiet
    have hkept := hs.2 m hproc
    refine (hkept.clean (Bool.eq_false_iff.mpr fun hstarted => ?_)).dead
    exact Bool.false_ne_true ((hkept.wanted hstarted).2.symm.trans hquiet')

/-- The modem takes everything, a start is granted, and the reports are these. -/
def granting (clock : ℕ) (report : Option PppStatus) : Fate where
  answer
    | .now => clock
    | .command _ _ => { result := .ok, raw := "OK\n".toList }
    | .status => report
    | .start _ => true
    | .stop | .note _ => ()

/-- Dialled, and told at the next look that nothing runs. -/
def toldIdle (ends : Bool) : List (Input Fate Job Empty) :=
  let stale : PppStatus := { exit := .dialFailed }
  [.start (.setConfig { apn := "internet".toList }), .start (.setModemPort "ttyUSB4".toList),
    .start .connect, .answer (granting 0 none), .start (.tick registered)] ++
  List.replicate 6 (.answer (granting 0 none)) ++
  .start (.tick registered) :: .answer (granting 500 none) ::
    List.replicate 3 (.answer { granting 500 (some stale) with ends := ends })

/-- The process has ended when the report says so. -/
theorem one_process_run_ended :
    Always supervised.step OneProcess (atRest {} {}) (toldIdle true) := by
  refine one_process_run _ ?_
  decide

/-- The report is left over from an earlier call: the process asked for runs on under a link that
has failed, and the next try asks for a second one. -/
theorem not_oneProcess_stale :
    ¬ OneProcess (run supervised.step (atRest {} {}) (toldIdle false)) ∧
    (run supervised.step (atRest {} {}) (toldIdle false ++ .start (.tick registered) ::
      List.replicate 6 (.answer (granting 60000 none)))).world.doubled = true := by
  unfold OneProcess
  constructor
  · decide
  · decide

end Machino.Cellular.PppLink
