import Machino.Net.CellularStore

namespace Machino.Net

open Effects Runs Cellular

/-- The command that has a PIN in it, where the action has one. -/
def pinCommand (r : SimLockRequest) : Option Text :=
  match r.action with
  | .enable => some (clckCommand true r.pin)
  | .disable => some (clckCommand false r.pin)
  | .change => some (cpwdCommand r.pin r.newPin)
  | .status => none

/-- Switching the lock or changing the PIN, which the question for the lock is not. -/
def pinBearing (cmd : Text) : Bool :=
  "AT+CPWD=".toList.isPrefixOf cmd || "AT+CLCK=\"SC\",1".toList.isPrefixOf cmd ||
    "AT+CLCK=\"SC\",0".toList.isPrefixOf cmd

/-- Answers from `reply`, and the commands that go out are written down. -/
def logged (reply : (e : ModemCall) → ModemAnswer e) (e : ModemCall) (w : List Text) :
    ModemAnswer e × List Text :=
  (reply e, match e with | .command cmd _ => w ++ [cmd] | _ => w)

namespace CellularUplink

/-- The other requests that the tick has taken up, with those that still wait. -/
def joined (round : Round) (actions : ModemActions) : ModemActions :=
  { actions with
    nbRequested := actions.nbRequested || round.nbRequested
    restartRequested := actions.restartRequested || round.restartRequested }

/-- The actions as the tick finds them, with what it has taken up. -/
def taken (cfg : CellularConfig) (request : Option SimLockRequest) (round : Round)
    (actions : ModemActions) : ModemActions :=
  if !cfg.enabled then actions
  else
    match request with
    | some r => ((joined round actions).requestSimLock r).toOption.getD (joined round actions)
    | none => joined round actions

/-- The modem work of `act` on what was taken up. -/
def actProg (cfg : CellularConfig) (round : Round) (actions : ModemActions) :
    Modem (ModemActions.Outcome × ModemActions) :=
  if !cfg.enabled then actions.tick {}
  else if round.radioBusy then pure ({}, actions)
  else actions.tick round.status

/-- The commands with a PIN in them that the tick sends for its actions. -/
def pinsSent (cfg : CellularConfig) (request : Option SimLockRequest) (round : Round)
    (actions : ModemActions) : List Text :=
  (((actProg cfg round (taken cfg request round actions)).eval (logged round.reply) []).2).filter
    pinBearing

theorem act_eq (cfg : CellularConfig) (request : Option SimLockRequest) (round : Round)
    (actions : ModemActions) : act cfg request round actions =
      ((actProg cfg round (taken cfg request round actions)).eval (logged round.reply) []).1 := by
  have hlog (p : Modem (ModemActions.Outcome × ModemActions)) :
      (p.eval (fun e (w : Unit) => (round.reply e, w)) ()).1 = (p.eval (logged round.reply) []).1 :=
    Prog.eval_fst (fun _ _ _ => rfl) p () []
  unfold act actProg taken joined
  dsimp only
  split
  · exact hlog _
  · split
    · split <;> rfl
    · exact hlog _

end CellularUplink

/-- A SIM action with its report, and the commands with a PIN in them that were sent for it. -/
structure Reported where
  request : SimLockRequest
  report : SimLockReport
  sent : List Text

/-- The uplink and its configuration, with the SIM actions accepted and those answered, and all
commands with a PIN in them. -/
structure SimRequests where
  cfg : CellularConfig
  uplink : CellularUplink := {}
  accepted : List SimLockRequest := []
  answered : List Reported := []
  pins : List Text := []

/-- The calls, and the sections of a tick with the modem work between them. -/
inductive UplinkEvent where
  | requestSimLock (r : SimLockRequest)
  | setConfig (c : CellularConfig)
  | copy
  | work (round : Round)
  | persist
  | publish

namespace SimRequests

def requestSimLock (r : SimLockRequest) (s : SimRequests) : SimRequests :=
  match s.uplink.requestSimLock r s.cfg with
  | .ok u => { s with uplink := u, accepted := s.accepted ++ [r] }
  | .error _ => s

/-- The tick takes up what waits with a copy of the configuration. -/
def copy (s : SimRequests) : SimRequests :=
  match s.uplink.ticking with
  | .idle => { s with
      uplink.ticking := .working s.cfg s.uplink.simRequest
      uplink.simRequest := none }
  | .working _ _ | .saving _ _ _ | .ending _ _ => s

/-- The action that the modem work has used up, with the report it has left. -/
def answers (before after : ModemActions) (sent : List Text) : List Reported :=
  match before.simRequested, after.simRequested, after.report with
  | some r, none, some report => [⟨r, report, sent⟩]
  | _, _, _ => []

def work (round : Round) (s : SimRequests) : SimRequests :=
  match s.uplink.ticking with
  | .working cfg request =>
    let r := CellularUplink.act cfg request round s.uplink.actions
    let sent := CellularUplink.pinsSent cfg request round s.uplink.actions
    let st := CellularUplink.seen cfg round
    let done := answers (CellularUplink.taken cfg request round s.uplink.actions) r.2 sent
    { s with
      cfg := (r.1.newPin.map s.cfg.withPin).getD s.cfg
      uplink.actions := r.2
      uplink.ticking := (r.1.newPin.map fun pin =>
        Ticking.saving (cfg.withPin pin) st round.scanning).getD (.ending st round.scanning)
      answered := s.answered ++ done
      pins := s.pins ++ sent }
  | .idle | .saving _ _ _ | .ending _ _ => s

/-- The file is told of the new PIN. -/
def persist (s : SimRequests) : SimRequests :=
  match s.uplink.ticking with
  | .saving _ st scanning => { s with uplink.ticking := .ending st scanning }
  | .idle | .working _ _ | .ending _ _ => s

def publish (s : SimRequests) : SimRequests :=
  match s.uplink.ticking with
  | .ending st scanning => { s with
      uplink.st := st, uplink.scanning := scanning, uplink.ticking := .idle }
  | .idle | .working _ _ | .saving _ _ _ => s

def step (s : SimRequests) : UplinkEvent → SimRequests
  | .requestSimLock r => s.requestSimLock r
  | .setConfig c => { s with cfg := c }
  | .copy => s.copy
  | .work round => s.work round
  | .persist => s.persist
  | .publish => s.publish

/-- The action that a tick under way has taken up. -/
def inHand (s : SimRequests) : Option SimLockRequest :=
  match s.uplink.ticking with
  | .working _ request => request
  | .idle | .saving _ _ _ | .ending _ _ => none

/-- The actions still to be carried out, the oldest first. -/
def waiting (s : SimRequests) : List SimLockRequest :=
  s.uplink.actions.simRequested.toList ++ s.inHand.toList ++ s.uplink.simRequest.toList

/-- The tick that has an action in hand finds cellular switched on in its copy, and none that waits
in the modem's mailbox still. -/
def TakesUp (s : SimRequests) : UplinkEvent → Prop
  | .work _ =>
    match s.uplink.ticking with
    | .working cfg (some _) => cfg.enabled = true ∧ s.uplink.actions.simRequested = none
    | .working _ none | .idle | .saving _ _ _ | .ending _ _ => True
  | .requestSimLock _ | .setConfig _ | .copy | .persist | .publish => True

/-- A tick that the radio leaves to the actions and that no restart comes first in. -/
def Unhindered (s : SimRequests) (round : Round) : Prop :=
  match s.uplink.ticking with
  | .working cfg _ => cfg.enabled = true → round.radioBusy = false ∧
      s.uplink.actions.restartRequested = false ∧ round.restartRequested = false
  | .idle | .saving _ _ _ | .ending _ _ => False

/-- Every accepted action has one report or still waits, in the order of their acceptance; the last
report is the one shown; a PIN goes out for an action when it is answered and at most once; and
nothing is left in hand by a tick that can see to it. -/
structure Accounted (s : SimRequests) : Prop where
  ledger : s.accepted = s.answered.map Reported.request ++ s.waiting
  shown : s.uplink.actions.report = s.answered.getLast?.map Reported.report
  sentFor : ∀ a ∈ s.answered, a.sent = [] ∨ a.sent = (pinCommand a.request).toList
  sentOnly : s.pins = s.answered.flatMap Reported.sent
  seenTo : ∀ round, s.TakesUp (.work round) → s.Unhindered round →
    (s.work round).waiting = s.uplink.simRequest.toList

end SimRequests

/-- What a tick of the actions does to what waits, and the commands with a PIN that it sends. -/
inductive Ticked (st : CellularStatus) (a : ModemActions) : ModemActions → List Text → Prop
  | dropped : Ticked st a a.dropped []
  | restarted : st.present = true → a.restartRequested = true →
      Ticked st a { a with restartRequested := false } []
  | ran (r : SimLockRequest) (report : SimLockReport) : a.simRequested = some r →
      Ticked st a { a with simRequested := none, report := some report } (pinCommand r).toList
  | idle (nb : Bool) : a.simRequested = none → Ticked st a { a with nbRequested := nb } []

section work

variable (reply : (e : ModemCall) → ModemAnswer e)

theorem pinBearing_clck (enable : Bool) (pin : Text) :
    pinBearing (clckCommand enable pin) = true := by
  have hstart (c : Char) : ("AT+CLCK=\"SC\",".toList ++ [c]).isPrefixOf
      ("AT+CLCK=\"SC\",".toList ++ c :: ',' :: quoted pin) = true := by
    rw [List.isPrefixOf_iff_prefix]
    exact ⟨',' :: quoted pin, by rw [List.append_assoc]; rfl⟩
  unfold pinBearing clckCommand
  cases enable with
  | true =>
    have h : "AT+CLCK=\"SC\",1".toList = "AT+CLCK=\"SC\",".toList ++ ['1'] := by decide
    rw [if_pos rfl, h, hstart, Bool.or_true, Bool.true_or]
  | false =>
    have h : "AT+CLCK=\"SC\",0".toList = "AT+CLCK=\"SC\",".toList ++ ['0'] := by decide
    rw [if_neg Bool.false_ne_true, h, hstart, Bool.or_true]

theorem pinBearing_cpwd (pin newPin : Text) : pinBearing (cpwdCommand pin newPin) = true := by
  have h : "AT+CPWD=\"SC\",".toList = "AT+CPWD=".toList ++ "\"SC\",".toList := by decide
  have hcmd : cpwdCommand pin newPin =
      "AT+CPWD=".toList ++ ("\"SC\",".toList ++ (quoted pin ++ ',' :: quoted newPin)) := by
    unfold cpwdCommand
    rw [h, List.append_assoc, List.append_assoc]
  have hstart : "AT+CPWD=".toList.isPrefixOf (cpwdCommand pin newPin) = true := by
    rw [List.isPrefixOf_iff_prefix, hcmd]
    exact List.prefix_append _ _
  unfold pinBearing
  rw [hstart, Bool.true_or, Bool.true_or]

@[simp] theorem eval_command (cmd : Text) (t : ℕ) (w : List Text) :
    (command cmd t).eval (logged reply) w = (reply (.command cmd t), w ++ [cmd]) := rfl

@[simp] theorem eval_ask (cmd : String) (w : List Text) : (ask cmd).eval (logged reply) w =
    (reply (.command cmd.toList 3000), w ++ [cmd.toList]) := rfl

theorem log_ite_pure {α : Type} (c : Prop) [Decidable c] (a b : α) (w : List Text) :
    ((if c then (pure a : Modem α) else pure b).eval (logged reply) w).2 = w := by
  split <;> rfl

theorem log_sendSimLock (r : SimLockRequest) :
    ((sendSimLock r).eval (logged reply) []).2 = (pinCommand r).toList := by
  obtain ⟨action, pin, newPin⟩ := r
  unfold sendSimLock
  cases action with
  | status => rfl
  | enable =>
    dsimp only
    rw [Prog.eval_bind]
    exact log_ite_pure reply _ _ _ _
  | disable =>
    dsimp only
    rw [Prog.eval_bind]
    exact log_ite_pure reply _ _ _ _
  | change =>
    rw [Prog.eval_bind]
    exact log_ite_pure reply _ _ _ _

/-- The state of the lock is asked for behind the action. -/
theorem log_runSimLock (r : SimLockRequest) : ((runSimLock r).eval (logged reply) []).2 =
    (pinCommand r).toList ++
      ["AT+CLCK=\"SC\",2".toList, "AT+QPINC=\"SC\"".toList, "AT+CPIN?".toList] := by
  unfold runSimLock
  rw [Prog.eval_bind, ← log_sendSimLock reply r]
  generalize (sendSimLock r).eval (logged reply) [] = p
  simp [logged, ask, command]

theorem pinBearing_of_mem {r : SimLockRequest} {cmd : Text} (h : cmd ∈ (pinCommand r).toList) :
    pinBearing cmd = true := by
  rw [Option.mem_toList] at h
  unfold pinCommand at h
  split at h <;> cases h
  · exact pinBearing_clck true r.pin
  · exact pinBearing_clck false r.pin
  · exact pinBearing_cpwd r.pin r.newPin

/-- Only the command of the action has a PIN in it. -/
theorem pins_runSimLock (r : SimLockRequest) :
    ((runSimLock r).eval (logged reply) []).2.filter pinBearing = (pinCommand r).toList := by
  have hquestions : ["AT+CLCK=\"SC\",2".toList, "AT+QPINC=\"SC\"".toList, "AT+CPIN?".toList].filter
      pinBearing = [] := by decide +kernel
  rw [log_runSimLock, List.filter_append, hquestions, List.append_nil]
  exact List.filter_eq_self.mpr fun cmd hcmd => pinBearing_of_mem hcmd

theorem ticked_tick (st : CellularStatus) (a : ModemActions) :
    Ticked st a ((a.tick st).eval (logged reply) []).1.2
      (((a.tick st).eval (logged reply) []).2.filter pinBearing) := by
  unfold ModemActions.tick
  by_cases hgone : (!st.present || !st.responsive) = true
  · rw [if_pos hgone]
    exact .dropped
  rw [if_neg hgone]
  by_cases hrestart : a.restartRequested = true
  · have hpins : ["AT+CFUN=1,1".toList].filter pinBearing = [] := by decide +kernel
    have hpresent : st.present = true := by
      by_contra hoff
      exact hgone (by simp [Bool.eq_false_iff.mpr hoff])
    rw [if_pos hrestart, Prog.eval_bind, eval_command, Prog.eval_pure, List.nil_append, hpins]
    exact .restarted hpresent hrestart
  rw [if_neg hrestart]
  cases hsim : a.simRequested with
  | some r =>
    have hpins := pins_runSimLock reply r
    dsimp only
    rw [Prog.eval_bind]
    generalize (runSimLock r).eval (logged reply) [] = p at hpins
    obtain ⟨⟨report, newPin⟩, log⟩ := p
    rw [Prog.eval_pure, hpins]
    exact .ran r report hsim
  | none =>
    dsimp only
    by_cases hnb : a.nbRequested = true
    · have hpins : ["AT+QENG=\"neighbourcell\"".toList].filter pinBearing = [] := by
        decide +kernel
      have hidle := @Ticked.idle st a false hsim
      rw [hsim] at hidle
      rw [if_pos hnb, Prog.eval_bind, eval_command, Prog.eval_pure, List.nil_append, hpins]
      exact hidle
    · rw [if_neg hnb]
      exact .idle a.nbRequested hsim

end work

/-- What the work leaves of the action it finds, and what it reports of it. -/
structure Settles (a b : ModemActions) (sent : List Text) (done : List Reported) : Prop where
  ledger : a.simRequested.toList = done.map Reported.request ++ b.simRequested.toList
  shown : b.report = (done.getLast?.map Reported.report).or a.report
  sentFor : ∀ x ∈ done, x.sent = [] ∨ x.sent = (pinCommand x.request).toList
  sentOnly : sent = done.flatMap Reported.sent

/-- What waits and the last report are left alone. -/
theorem settles_none {a b : ModemActions} (hwaits : b.simRequested = a.simRequested)
    (hreport : b.report = a.report) : Settles a b [] (SimRequests.answers a b []) := by
  have hnone : SimRequests.answers a b [] = [] := by
    unfold SimRequests.answers
    rw [hwaits]
    cases a.simRequested <;> rfl
  rw [hnone]
  exact ⟨by rw [hwaits]; rfl, by rw [hreport]; rfl, fun x hx => absurd hx List.not_mem_nil, rfl⟩

theorem Ticked.settles {st : CellularStatus} {a b : ModemActions} {sent : List Text}
    (h : Ticked st a b sent) : Settles a b sent (SimRequests.answers a b sent) := by
  cases h with
  | dropped =>
    cases hsim : a.simRequested with
    | none =>
      refine settles_none hsim.symm ?_
      unfold ModemActions.dropped
      rw [hsim]
    | some r =>
      simp only [SimRequests.answers, ModemActions.dropped, hsim]
      exact ⟨by rw [hsim]; rfl, rfl, by simp, rfl⟩
  | restarted _ _ => exact settles_none rfl rfl
  | ran r report hsim =>
    simp only [SimRequests.answers, hsim]
    exact ⟨by rw [hsim]; rfl, rfl, by simp, by simp⟩
  | idle nb hsim => exact settles_none rfl rfl

theorem settles_act (cfg : CellularConfig) (request : Option SimLockRequest) (round : Round)
    (actions : ModemActions) :
    Settles (CellularUplink.taken cfg request round actions)
      (CellularUplink.act cfg request round actions).2
      (CellularUplink.pinsSent cfg request round actions)
      (SimRequests.answers (CellularUplink.taken cfg request round actions)
        (CellularUplink.act cfg request round actions).2
        (CellularUplink.pinsSent cfg request round actions)) := by
  rw [CellularUplink.act_eq]
  unfold CellularUplink.pinsSent CellularUplink.actProg
  split
  · exact (ticked_tick round.reply {} _).settles
  · split
    · exact settles_none rfl rfl
    · exact (ticked_tick round.reply round.status _).settles

theorem request_taken {a : ModemActions} {r : SimLockRequest} (hnone : a.simRequested = none)
    (hcheck : r.check = .ok ()) :
    ((a.requestSimLock r).toOption.getD a).simRequested = some r := by
  unfold ModemActions.requestSimLock
  rw [hnone, hcheck]
  rfl

theorem request_refused {a : ModemActions} {r q : SimLockRequest} (h : a.simRequested = some q) :
    (a.requestSimLock r).toOption.getD a = a := by
  unfold ModemActions.requestSimLock
  rw [h]
  rfl

/-- A request changes nothing but what waits. -/
theorem request_frame (a : ModemActions) (r : SimLockRequest) :
    ∃ q, (a.requestSimLock r).toOption.getD a = { a with simRequested := q } := by
  cases h : a.requestSimLock r with
  | error e => exact ⟨a.simRequested, rfl⟩
  | ok b =>
    unfold ModemActions.requestSimLock at h
    obtain ⟨_, -, h⟩ := except_bind_eq_ok.mp h
    obtain ⟨_, -, h⟩ := except_bind_eq_ok.mp h
    cases h
    exact ⟨some r, rfl⟩

theorem report_taken (cfg : CellularConfig) (request : Option SimLockRequest) (round : Round)
    (actions : ModemActions) :
    (CellularUplink.taken cfg request round actions).report = actions.report := by
  unfold CellularUplink.taken
  split
  · rfl
  · split
    · rename_i r
      obtain ⟨q, hq⟩ := request_frame (CellularUplink.joined round actions) r
      rw [hq]
      rfl
    · rfl

/-- Where neither radio nor restart comes first, the work leaves no action. -/
theorem act_simRequested {cfg : CellularConfig} {round : Round} {actions : ModemActions}
    (request : Option SimLockRequest)
    (h : cfg.enabled = true → round.radioBusy = false ∧ actions.restartRequested = false ∧
      round.restartRequested = false) :
    (CellularUplink.act cfg request round actions).2.simRequested = none := by
  have htick (st : CellularStatus) (a : ModemActions)
      (hr : st.present = true → a.restartRequested = false) :
      ((a.tick st).eval (logged round.reply) []).1.2.simRequested = none := by
    have ht := ticked_tick round.reply st a
    generalize ((a.tick st).eval (logged round.reply) []).1.2 = b at ht
    generalize ((a.tick st).eval (logged round.reply) []).2.filter pinBearing = sent at ht
    cases ht with
    | dropped => rfl
    | restarted hp hrestart => exact absurd ((hr hp).symm.trans hrestart) Bool.false_ne_true
    | ran r report _ => rfl
    | idle nb hsim => exact hsim
  rw [CellularUplink.act_eq]
  unfold CellularUplink.actProg
  split
  · exact htick {} _ nofun
  · rename_i hen
    obtain ⟨hbusy, hwaits, hround⟩ := h (by simpa using hen)
    rw [if_neg (by simp [hbusy])]
    refine htick round.status _ fun _ => ?_
    have hjoined : (CellularUplink.joined round actions).restartRequested = false := by
      simp [CellularUplink.joined, hwaits, hround]
    unfold CellularUplink.taken
    rw [if_neg hen]
    split
    · rename_i r
      obtain ⟨q, hq⟩ := request_frame (CellularUplink.joined round actions) r
      rw [hq]
      exact hjoined
    · exact hjoined

namespace SimRequests

structure Inv (s : SimRequests) : Prop where
  ledger : s.accepted = s.answered.map Reported.request ++ s.waiting
  formed : ∀ r ∈ s.waiting, r.check = .ok ()
  shown : s.uplink.actions.report = s.answered.getLast?.map Reported.report
  sentFor : ∀ a ∈ s.answered, a.sent = [] ∨ a.sent = (pinCommand a.request).toList
  sentOnly : s.pins = s.answered.flatMap Reported.sent

variable {s : SimRequests}

theorem waiting_working (s : SimRequests) {cfg : CellularConfig} {request : Option SimLockRequest}
    (h : s.uplink.ticking = .working cfg request) :
    s.waiting = s.uplink.actions.simRequested.toList ++ request.toList ++
      s.uplink.simRequest.toList := by
  unfold waiting inHand
  rw [h]

/-- What the tick has in hand joins what waits in the modem's mailbox. -/
theorem taken_of_takesUp (h : s.Inv) {round : Round} (hok : s.TakesUp (.work round))
    {cfg : CellularConfig} {request : Option SimLockRequest}
    (hticking : s.uplink.ticking = .working cfg request) :
    (CellularUplink.taken cfg request round s.uplink.actions).simRequested.toList =
      s.uplink.actions.simRequested.toList ++ request.toList := by
  unfold CellularUplink.taken
  cases request with
  | none => split <;> simp [CellularUplink.joined]
  | some r =>
    unfold TakesUp at hok
    rw [hticking] at hok
    obtain ⟨hen, hnone⟩ := hok
    have hcheck : r.check = .ok () := h.formed r (by rw [waiting_working s hticking]; simp)
    rw [if_neg (by simp [hen])]
    dsimp only
    rw [request_taken (a := CellularUplink.joined round s.uplink.actions) hnone hcheck, hnone]
    rfl

/-- What the tick does with its action is written down. -/
theorem work_working (s : SimRequests) (round : Round) {cfg : CellularConfig}
    {request : Option SimLockRequest} (h : s.uplink.ticking = .working cfg request) :
    ∃ done, Settles (CellularUplink.taken cfg request round s.uplink.actions)
        (s.work round).uplink.actions
        (CellularUplink.pinsSent cfg request round s.uplink.actions) done ∧
      (s.work round).accepted = s.accepted ∧ (s.work round).answered = s.answered ++ done ∧
      (s.work round).pins = s.pins ++ CellularUplink.pinsSent cfg request round s.uplink.actions ∧
      (s.work round).waiting = (s.work round).uplink.actions.simRequested.toList ++
        s.uplink.simRequest.toList := by
  refine ⟨answers (CellularUplink.taken cfg request round s.uplink.actions)
      (CellularUplink.act cfg request round s.uplink.actions).2
      (CellularUplink.pinsSent cfg request round s.uplink.actions), ?_, ?_, ?_, ?_, ?_⟩
  · have hset := settles_act cfg request round s.uplink.actions
    unfold work
    rw [h]
    exact hset
  · unfold work
    rw [h]
  · unfold work
    rw [h]
  · unfold work
    rw [h]
  · unfold work
    rw [h]
    unfold waiting inHand
    dsimp only
    cases (CellularUplink.act cfg request round s.uplink.actions).1.newPin <;> simp

theorem inv_work (h : s.Inv) {round : Round} (hok : s.TakesUp (.work round)) :
    (s.work round).Inv := by
  cases hticking : s.uplink.ticking with
  | idle => unfold work; rw [hticking]; exact h
  | saving cfg st scanning => unfold work; rw [hticking]; exact h
  | ending st scanning => unfold work; rw [hticking]; exact h
  | working cfg request =>
    obtain ⟨done, hset, haccepted, hanswered, hpins, hwaiting⟩ := work_working s round hticking
    have hbefore := waiting_working s hticking
    have hledger := hset.ledger
    rw [taken_of_takesUp h hok hticking] at hledger
    have hsame : s.waiting = done.map Reported.request ++ (s.work round).waiting := by
      rw [hbefore, hledger, hwaiting, List.append_assoc]
    refine ⟨?_, fun r hr => h.formed r ?_, ?_, fun a ha => ?_, ?_⟩
    · rw [haccepted, h.ledger, hsame, hanswered, List.map_append, List.append_assoc]
    · rw [hsame]
      exact List.mem_append_right _ hr
    · have hshown := hset.shown
      rw [hshown, report_taken, h.shown, hanswered, List.getLast?_append]
      cases done.getLast? <;> rfl
    · rw [hanswered] at ha
      obtain ha | ha := List.mem_append.mp ha
      · exact h.sentFor a ha
      · exact hset.sentFor a ha
    · rw [hpins, hanswered, h.sentOnly, hset.sentOnly, List.flatMap_append]

theorem inv_requestSimLock (h : s.Inv) (r : SimLockRequest) : (s.requestSimLock r).Inv := by
  unfold requestSimLock
  split
  · rename_i u hu
    unfold CellularUplink.requestSimLock at hu
    obtain ⟨_, -, hu⟩ := except_bind_eq_ok.mp hu
    obtain ⟨_, hempty, hu⟩ := except_bind_eq_ok.mp hu
    obtain ⟨_, -, hu⟩ := except_bind_eq_ok.mp hu
    obtain ⟨a, ha, hu⟩ := except_bind_eq_ok.mp hu
    cases hu
    obtain ⟨_, -, ha⟩ := except_bind_eq_ok.mp ha
    obtain ⟨_, hcheck, -⟩ := except_bind_eq_ok.mp ha
    have hnone : s.uplink.simRequest = none := by
      simpa using ensure_eq_ok.mp hempty
    let u' : CellularUplink := { s.uplink with simRequest := some r }
    have hwaiting : ({ s with uplink := u', accepted := s.accepted ++ [r] } : SimRequests).waiting =
        s.waiting ++ [r] := by
      unfold waiting inHand
      rw [hnone]
      simp [u']
    refine ⟨?_, ?_, h.shown, h.sentFor, h.sentOnly⟩
    · rw [hwaiting]
      dsimp only
      rw [h.ledger, List.append_assoc]
    · rw [hwaiting]
      intro q hq
      obtain hq | hq := List.mem_append.mp hq
      · exact h.formed q hq
      · rw [List.mem_singleton.mp hq]
        exact hcheck
  · exact h

/-- A step that moves nothing but the waiting actions. -/
theorem Inv.of_waiting (h : s.Inv) {s' : SimRequests} (hwaiting : s'.waiting = s.waiting)
    (hreport : s'.uplink.actions.report = s.uplink.actions.report)
    (haccepted : s'.accepted = s.accepted) (hanswered : s'.answered = s.answered)
    (hpins : s'.pins = s.pins) : s'.Inv := by
  refine ⟨?_, ?_, ?_, ?_, ?_⟩
  · rw [haccepted, hanswered, hwaiting, h.ledger]
  · rw [hwaiting]
    exact h.formed
  · rw [hreport, hanswered, h.shown]
  · rw [hanswered]
    exact h.sentFor
  · rw [hpins, hanswered, h.sentOnly]

theorem inv_copy (h : s.Inv) : s.copy.Inv := by
  unfold copy
  split
  · rename_i hidle
    refine h.of_waiting ?_ rfl rfl rfl rfl
    unfold waiting inHand
    rw [hidle]
    simp
  all_goals exact h

theorem inv_persist (h : s.Inv) : s.persist.Inv := by
  unfold persist
  split
  · rename_i hsaving
    refine h.of_waiting ?_ rfl rfl rfl rfl
    unfold waiting inHand
    rw [hsaving]
  all_goals exact h

theorem inv_publish (h : s.Inv) : s.publish.Inv := by
  unfold publish
  split
  · rename_i hending
    refine h.of_waiting ?_ rfl rfl rfl rfl
    unfold waiting inHand
    rw [hending]
  all_goals exact h

theorem inv_step (h : s.Inv) (ev : UplinkEvent) (hok : s.TakesUp ev) : (s.step ev).Inv := by
  cases ev with
  | requestSimLock r => exact inv_requestSimLock h r
  | setConfig c => exact h.of_waiting rfl rfl rfl rfl rfl
  | copy => exact inv_copy h
  | work round => exact inv_work h hok
  | persist => exact inv_persist h
  | publish => exact inv_publish h

theorem Inv.accounted (h : s.Inv) : s.Accounted := by
  refine ⟨h.ledger, h.shown, h.sentFor, h.sentOnly, fun round hok hun => ?_⟩
  unfold Unhindered at hun
  split at hun
  · rename_i cfg request hticking
    obtain ⟨done, -, -, -, -, hwaiting⟩ := work_working s round hticking
    have hact := @act_simRequested cfg round s.uplink.actions request hun
    have hafter : (s.work round).uplink.actions.simRequested = none := by
      unfold work
      rw [hticking]
      exact hact
    rw [hwaiting, hafter]
    rfl
  all_goals exact hun.elim

/-- An action that the tick has in hand is lost where cellular is off, or another one waits. -/
theorem not_accounted_of_not (h : s.Inv) (ev : UplinkEvent) (hbad : ¬ s.TakesUp ev) :
    ¬ (s.step ev).Accounted := by
  cases ev with
  | work round =>
    unfold TakesUp at hbad
    dsimp only at hbad
    split at hbad
    · rename_i cfg r hticking
      intro hacc
      obtain ⟨done, hset, haccepted, hanswered, -, hwaiting⟩ := work_working s round hticking
      have htaken : (CellularUplink.taken cfg (some r) round s.uplink.actions).simRequested =
          s.uplink.actions.simRequested := by
        unfold CellularUplink.taken
        split
        · rfl
        · rename_i hen
          cases hsim : s.uplink.actions.simRequested with
          | none => exact absurd ⟨by simpa using hen, hsim⟩ hbad
          | some q =>
            dsimp only
            rw [request_refused (a := CellularUplink.joined round s.uplink.actions) hsim]
            exact hsim
      have hledger := congrArg List.length hset.ledger
      have hbefore := congrArg List.length h.ledger
      have hafter := congrArg List.length hacc.ledger
      change (s.work round).accepted.length = _ at hafter
      change _ = ((s.work round).answered.map Reported.request ++ (s.work round).waiting).length
        at hafter
      rw [haccepted, hanswered, hwaiting] at hafter
      rw [waiting_working s hticking] at hbefore
      rw [htaken] at hledger
      simp only [List.length_append, List.length_map, Option.toList_some, List.length_singleton]
        at hledger hbefore hafter
      omega
    all_goals exact absurd trivial hbad
  | requestSimLock r => exact absurd trivial hbad
  | setConfig c => exact absurd trivial hbad
  | copy => exact absurd trivial hbad
  | persist => exact absurd trivial hbad
  | publish => exact absurd trivial hbad

/-- The runs that account for every accepted action are those whose ticks do their modem work with
cellular switched on and nothing else waiting where they have an action in hand. -/
theorem accounted_iff (cfg : CellularConfig) (evs : List UplinkEvent) :
    Always step Accounted { cfg := cfg } evs ↔ Along step TakesUp { cfg := cfg } evs := by
  have h0 : Inv { cfg := cfg } :=
    ⟨rfl, fun r hr => absurd hr List.not_mem_nil, rfl, fun a ha => absurd ha List.not_mem_nil, rfl⟩
  have hstep : ∀ s ev, Inv s → TakesUp s ev → Inv (step s ev) := fun _ ev h => inv_step h ev
  have hbad : ∀ s ev, Inv s → ¬ TakesUp s ev → ¬ Accounted (step s ev) :=
    fun _ ev h => not_accounted_of_not h ev
  exact always_iff_along hstep (fun _ h => h.accounted) hbad h0

/-- A modem that answers every command with the same text. -/
def replies (raw : Text) : (e : ModemCall) → ModemAnswer e
  | .available => true
  | .command _ _ => { result := .ok, raw := raw }
  | .loadNote => none
  | .storeNote _ => ()

def attached (radioBusy : Bool) : Round :=
  { status := { present := true, responsive := true }, radioBusy := radioBusy
    reply := replies "OK".toList }

def enableLock (pin : String) : SimLockRequest := { action := .enable, pin := pin.toList }

def firstTick : List UplinkEvent := [.copy, .work (attached false), .publish]

/-- Cellular is switched off between the request and the tick; and a second request comes while the
radio keeps the first one waiting. -/
theorem not_accounted :
    ¬ Always step Accounted { cfg := { enabled := true } }
      (firstTick ++ [.requestSimLock (enableLock "1234"), .setConfig { enabled := false }, .copy,
        .work (attached false)]) ∧
    ¬ Always step Accounted { cfg := { enabled := true } }
      (firstTick ++ [.requestSimLock (enableLock "1234"), .copy, .work (attached true), .publish,
        .requestSimLock { action := .status }, .copy, .work (attached false)]) := by
  constructor
  · intro h
    have hlast := congrArg List.length (h _ (List.prefix_refl _)).ledger
    exact absurd hlast (by decide +kernel)
  · intro h
    have hlast := congrArg List.length (h _ (List.prefix_refl _)).ledger
    exact absurd hlast (by decide +kernel)

end SimRequests

end Machino.Net
