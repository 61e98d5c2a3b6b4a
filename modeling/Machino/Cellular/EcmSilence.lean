import Machino.Cellular.ModeSwitches

namespace Machino.Cellular.EcmLink

open Effects Runs

/-- There is a connection, or an interface that waits for its address. -/
def standing (m : EcmLink) : Bool := m.st.state = .up || m.st.state = .addressing

/-- A tick that finds the modem there, and without an answer. -/
def Job.silent : Job → Bool
  | .tick status => status.present && !status.responsive
  | _ => false

/-- An operation with what its calls are answered, one after the other. -/
structure Turn where
  job : Job
  answers : ℕ → (e : Call) → Answer e

/-- An operation, what the link was before and after it, and what it has asked for. -/
structure Round where
  job : Job
  before : EcmLink
  calls : List Call
  after : EcmLink

/-- The link and what it has gone through, the newest first. -/
structure Course where
  link : EcmLink := {}
  log : List Round := []

def Turn.round (t : Turn) (m : EcmLink) : Round :=
  let r := (t.job.run m).asked t.answers
  ⟨t.job, m, r.2, r.1⟩

def Course.step (s : Course) (t : Turn) : Course :=
  ⟨(t.round s.link).after, t.round s.link :: s.log⟩

/-- The silent ticks in a row up to the last one. -/
def silences : List Round → ℕ
  | [] => 0
  | r :: rs =>
    match r.job with
    | .tick _ => if r.job.silent then silences rs + 1 else 0
    | _ => silences rs

def Call.IsNote : Call → Prop
  | .note _ => True
  | _ => False

/-- Nothing about the link has changed but its count, and nothing has been asked for. -/
def Round.Untouched (r : Round) : Prop :=
  (∃ n, r.after = { r.before with unresponsiveTicks := n }) ∧ ∀ e ∈ r.calls, e.IsNote

/-- A silent tick on a connection leaves it untouched before the third of them in a row, which ends
it. -/
def Tolerant (s : Course) : Prop :=
  ∀ r rs, s.log = r :: rs → r.job.silent = true → r.before.standing = true →
    if silences s.log < 3 then r.Untouched else r.after.standing = false

variable {m : EcmLink} {status : CellularStatus}

theorem switchMode_intent (cmd : Text) (detail : String) (m : EcmLink) :
    (switchMode cmd detail m).Yields (fun _ => True) (·.intent = m.intent) :=
  ⟨trivial, fun _ => ⟨trivial, fun _ => ⟨trivial, fun _ => rfl⟩⟩⟩

theorem ensureNat_intent (m : EcmLink) :
    (ensureNat m).Yields (fun _ => True) (·.intent = m.intent) := by
  unfold ensureNat
  refine Prog.Uses.bind (Prog.uses_perform trivial) fun answer => ?_
  dsimp only
  split
  · exact switchMode_intent _ _ { m with natSwitchTried := true }
  · rfl

/-- A step that switches nothing leaves the intent alone. -/
theorem intent_of_plain {p : Ecm EcmLink} (hp : p.Yields Call.Plain (·.carried = m.carried)) :
    p.Yields (fun _ => True) (·.intent = m.intent) :=
  hp.mono (fun _ _ => trivial) fun _ => intent_of_carried

theorem ensureMode_intent (m : EcmLink) :
    (ensureMode m).Yields (fun _ => True) (·.intent = m.intent) := by
  have hfail (detail : String) : (fail detail (m.enter .ensureEcmMode "pruefe Betriebsart")).Yields
      (fun _ => True) (·.intent = m.intent) := intent_of_plain (fail_plain detail (m.enter _ _))
  unfold ensureMode
  split
  · rfl
  refine Prog.Uses.bind (Prog.uses_perform trivial) fun answer => ?_
  split
  · exact hfail _
  split
  · exact ensureNat_intent (m.enter _ _)
  split
  · exact hfail _
  · exact switchMode_intent _ _ { m.enter _ _ with usbnetSwitchTried := true }

theorem advance_intent (m : EcmLink) :
    (advance m).Yields (fun _ => True) (·.intent = m.intent) := by
  unfold advance
  refine (ensureMode_intent m).bind fun m₁ h₁ => ?_
  refine (intent_of_plain (configurePdp_plain m₁)).bind fun m₂ h₂ => ?_
  refine (intent_of_plain (startData_plain m₂)).bind fun m₃ h₃ => ?_
  refine (intent_of_plain (waitNetif_plain m₃)).bind fun m₄ h₄ => ?_
  have hm₄ : m₄.intent = m.intent := h₄.trans (h₃.trans (h₂.trans h₁))
  split
  · exact (intent_of_plain (addressing_plain m₄)).mono (fun _ => id) fun _ h => h.trans hm₄
  · exact (intent_of_plain (keepUp_plain m₄)).mono (fun _ => id) fun _ h => h.trans hm₄
  · exact hm₄

/-- Whatever becomes of the connection while the modem answers, the count begins anew. -/
theorem proceed_intent (status : CellularStatus) (m : EcmLink) :
    (proceed status m).Yields (fun _ => True) (·.intent = m.intent) := by
  have hback : m.cameBack.intent = m.intent := by
    unfold cameBack
    split <;> rfl
  unfold proceed
  refine Prog.Uses.bind ((waiting_plain m.cameBack).mono fun _ _ => trivial) fun waits => ?_
  split
  · exact hback
  split
  · exact hback
  split
  · exact hback
  · exact (advance_intent m.cameBack).mono (fun _ => id) fun _ h => h.trans hback

theorem fail_fallen (detail : String) (m : EcmLink) :
    (fail detail m).Yields (fun _ => True) (·.standing = false) :=
  ⟨trivial, fun _ => ⟨trivial, fun _ => rfl⟩⟩

theorem modemGone_fallen (present : Bool) (m : EcmLink) :
    (modemGone present m).Yields (fun _ => True) (·.standing = false) := by
  unfold modemGone
  refine ((stopDhcp_plain _).mono (fun _ _ => trivial) fun _ _ => trivial).bind fun m₁ _ => ?_
  dsimp only
  split
  · rename_i hwait
    refine Prog.Uses.bind (Prog.uses_perform trivial) fun t => ?_
    split
    · exact fail_fallen _ _
    · show (decide _ || decide _) = false
      rw [hwait]
      rfl
  split
  · rfl
  · rfl

theorem disconnect_fallen (m : EcmLink) :
    (disconnect m).Yields (fun _ => True) (·.standing = false) := by
  unfold disconnect
  refine Prog.Uses.bind (Prog.uses_perform trivial) fun _ => ?_
  refine ((stopDhcp_plain _).mono (fun _ _ => trivial) fun _ _ => trivial).bind fun m₁ _ => ?_
  exact ((dropInterface_plain m₁).mono (fun _ _ => trivial) fun _ _ => trivial).bind
    fun m₂ _ => rfl

theorem tick_unwanted (hw : m.wantUp = false) (hs : m.standing = false) :
    (tick status m).Yields (fun _ => True) (·.standing = false) := by
  unfold tick
  refine Prog.Uses.bind (Prog.uses_perform trivial) fun _ => ?_
  rw [hw]
  split
  · split
    · exact disconnect_fallen m
    · exact hs
  · exact absurd rfl ‹¬_›

/-- A silent tick is only counted before the third. -/
theorem tick_tolerated (hw : m.wantUp = true) (ht : tolerated status m = true) :
    (tick status m).Yields Call.IsNote
      (· = { m with unresponsiveTicks := m.unresponsiveTicks + 1 }) := by
  unfold tick
  refine Prog.Uses.bind (Prog.uses_perform trivial) fun _ => ?_
  rw [hw, ht]
  rfl

theorem tick_gone (hw : m.wantUp = true) (ht : tolerated status m = false)
    (hs : (!status.present || !status.responsive) = true) :
    (tick status m).Yields (fun _ => True) (·.standing = false) := by
  unfold tick
  refine Prog.Uses.bind (Prog.uses_perform trivial) fun _ => ?_
  rw [hw, ht, hs]
  exact modemGone_fallen status.present m

theorem tick_answered (hw : m.wantUp = true)
    (hs : (!status.present || !status.responsive) = false) :
    (tick status m).Yields (fun _ => True) (·.intent = (true, 0)) := by
  have ht : tolerated status m = false := by
    rw [Bool.or_eq_false_iff] at hs
    unfold tolerated
    rw [hs.2]
    simp
  unfold tick
  refine Prog.Uses.bind (Prog.uses_perform trivial) fun _ => ?_
  rw [if_neg (by simp [hw]), if_neg (by simp [ht]), if_neg (by simp [hs])]
  exact (proceed_intent status { m with unresponsiveTicks := 0 }).mono (fun _ => id)
    fun _ h => h.trans (congrArg (·, 0) hw)

/-- A standing link is wanted, and it has counted the silent ticks. -/
def Counts (s : Course) : Prop :=
  s.link.standing = true → s.link.wantUp = true ∧ s.link.unresponsiveTicks = silences s.log

theorem tolerated_iff (hs : m.standing = true) :
    tolerated status m = true ↔
      (Job.tick status).silent = true ∧ m.unresponsiveTicks + 1 < kUnresponsiveTeardownTicks := by
  unfold standing at hs
  unfold tolerated Job.silent
  simp [hs]

theorem silent_of_tolerated (ht : tolerated status m = true) :
    (Job.tick status).silent = true := by
  unfold tolerated at ht
  unfold Job.silent
  simp only [Bool.and_eq_true] at ht
  simp [ht.1.1]

theorem counts_of_fallen {s : Course} (hs : s.link.standing = false) : Counts s :=
  fun h => absurd (hs.symm.trans h) Bool.false_ne_true

/-- What leaves the link as it is, or takes it down, leaves the count right. -/
theorem Counts.of_job {s : Course} (h : Counts s) {t : Turn}
    (hlog : silences (s.step t).log = silences s.log)
    (hp : (t.job.run s.link).Yields (fun _ => True) fun m =>
      m.standing = false ∨ m.standing = s.link.standing ∧ m.intent = s.link.intent) :
    Counts (s.step t) := by
  rcases (hp.asked t.answers).1 with hfallen | ⟨hstanding, hintent⟩
  · exact counts_of_fallen hfallen
  · intro hs
    obtain ⟨hwant, hticks⟩ := h (hstanding.symm.trans hs)
    rw [intent, intent, Prod.mk.injEq] at hintent
    exact ⟨hintent.1.trans hwant, hintent.2.trans (hticks.trans hlog.symm)⟩

theorem Counts.tick {s : Course} (h : Counts s) {t : Turn} (ht : t.job = .tick status) :
    Counts (s.step t) := by
  obtain ⟨job, answers⟩ := t
  subst ht
  by_cases hw : s.link.wantUp = true
  · by_cases htol : tolerated status s.link = true
    · have hafter : (s.step ⟨.tick status, answers⟩).link =
          { s.link with unresponsiveTicks := s.link.unresponsiveTicks + 1 } :=
        ((tick_tolerated hw htol).asked answers).1
      have hlog : silences (s.step ⟨.tick status, answers⟩).log = silences s.log + 1 :=
        if_pos (silent_of_tolerated htol)
      intro hs
      rw [hafter] at hs ⊢
      exact ⟨hw, (congrArg (· + 1) (h hs).2).trans hlog.symm⟩
    by_cases hs : (!status.present || !status.responsive) = true
    · exact counts_of_fallen ((tick_gone hw (Bool.eq_false_iff.mpr htol) hs).asked answers).1
    · have hafter : (s.step ⟨.tick status, answers⟩).link.intent = (true, 0) :=
        ((tick_answered hw (Bool.eq_false_iff.mpr hs)).asked answers).1
      have hlog : silences (s.step ⟨.tick status, answers⟩).log = 0 := by
        refine if_neg ?_
        unfold Round.job Turn.round Job.silent
        simp_all
      rw [intent, Prod.mk.injEq] at hafter
      exact fun _ => ⟨hafter.1, hafter.2.trans hlog.symm⟩
  · have hfallen : s.link.standing = false :=
      Bool.eq_false_iff.mpr fun hs => hw (h hs).1
    exact counts_of_fallen ((tick_unwanted (Bool.eq_false_iff.mpr hw) hfallen).asked answers).1

theorem Counts.step {s : Course} (h : Counts s) (t : Turn) : Counts (s.step t) := by
  obtain ⟨job, answers⟩ := t
  cases job with
  | connect =>
    refine h.of_job rfl ?_
    show (connect s.link).Yields _ _
    unfold connect
    split
    · exact .inr ⟨rfl, rfl⟩
    · exact ⟨trivial, fun _ => .inl rfl⟩
  | disconnect => exact h.of_job rfl ((disconnect_fallen s.link).mono (fun _ => id) fun _ => .inl)
  | setConfig c => exact h.of_job rfl (.inr ⟨rfl, rfl⟩)
  | tick status => exact h.tick rfl
  | wait => exact h.of_job rfl ⟨trivial, fun _ => .inr ⟨rfl, rfl⟩⟩

theorem Counts.tolerant {s : Course} (h : Counts s) (t : Turn) : Tolerant (s.step t) := by
  intro r rs hlog hsilent hs
  obtain ⟨rfl, rfl⟩ := List.cons.inj hlog
  obtain ⟨job, answers⟩ := t
  cases job with
  | tick status =>
    obtain ⟨hw, hticks⟩ := h hs
    have hcount : silences (s.step ⟨.tick status, answers⟩).log = silences s.log + 1 :=
      if_pos hsilent
    rw [hcount, ← hticks]
    by_cases hfew : s.link.unresponsiveTicks + 1 < 3
    · have hrun := (tick_tolerated hw ((tolerated_iff hs).mpr ⟨hsilent, hfew⟩)).asked answers
      rw [if_pos hfew]
      exact ⟨⟨_, hrun.1⟩, hrun.2⟩
    · have htol : tolerated status s.link = false :=
        Bool.eq_false_iff.mpr fun ht => hfew ((tolerated_iff hs).mp ht).2
      have hgone : (!status.present || !status.responsive) = true := by
        have hboth : (status.present && !status.responsive) = true := hsilent
        rw [Bool.and_eq_true] at hboth
        rw [hboth.2, Bool.or_true]
      rw [if_neg hfew]
      exact ((tick_gone hw htol hgone).asked answers).1
  | connect | disconnect | setConfig _ | wait => exact absurd hsilent Bool.false_ne_true

/-- In every run a connection outlives two silent ticks in a row unchanged, and the third ends it;
a tick that finds the modem answering begins the count anew. -/
theorem silence_run (ts : List Turn) : Tolerant (run Course.step {} ts) := by
  have hstart : Tolerant {} := fun r rs hlog => absurd hlog (List.cons_ne_nil r rs).symm
  have hcounts : Counts {} := counts_of_fallen rfl
  have hstep (s : Course) (t : Turn) (h : Counts s ∧ Tolerant s) :
      Counts (s.step t) ∧ Tolerant (s.step t) := ⟨h.1.step t, h.1.tolerant t⟩
  exact (run_invariant hstep ⟨hcounts, hstart⟩ ts).2

/-- A connection that hears nothing twice, an answer, and nothing three times. -/
example :
    let turn (job : Job) : Turn :=
      ⟨job, fun _ e => (attached "usb0".toList (some { ipv4 := "10.0.0.2".toList }) 0).answer e⟩
    let silent : CellularStatus := { registered with responsive := false }
    let up := [.setConfig { apn := "internet".toList }, .connect, .tick registered]
    let heard := up ++ [.tick silent, .tick silent, .tick registered, .tick silent, .tick silent]
    (run Course.step {} (heard.map turn)).link.st.state = .up ∧
      (run Course.step {} ((heard ++ [.tick silent]).map turn)).link.st.state = .waitAt := by
  decide

end Machino.Cellular.EcmLink
