import Machino.Cellular.PppLink

namespace Machino.Cellular

open Effects Runs

namespace Pace

variable {p : Pace} {s : DataLinkState} {nextDueMs : ℕ}

/-- No try has been made before its time, and the next one may be made. -/
structure Due (p : Pace) : Prop where
  early : p.early = false
  due : p.notBefore ≤ p.clock

/-- No try has been made before its time, and a link whose next one is not due waits in `failed`. -/
structure Waits (s : DataLinkState) (nextDueMs : ℕ) (p : Pace) : Prop where
  early : p.early = false
  due : p.notBefore ≤ p.clock ∨ s = .failed ∧ nextDueMs = p.notBefore

/-- The same, unless the modem has been gone. -/
structure Kept (s : DataLinkState) (nextDueMs : ℕ) (p : Pace) : Prop where
  early : p.early = false
  due : p.lapsed = true ∨ p.notBefore ≤ p.clock ∨ s = .failed ∧ nextDueMs = p.notBefore

/-- No try has been made before its time, and the modem has been gone since the last one failed. -/
structure Gone (p : Pace) : Prop where
  early : p.early = false
  lapsed : p.lapsed = true

theorem Gone.kept (h : p.Gone) : Kept s nextDueMs p := ⟨h.early, .inl h.lapsed⟩

theorem Gone.pass (h : p.Gone) (ms : ℕ) : (p.pass ms).Gone := ⟨h.early, h.lapsed⟩

theorem Due.waits (h : p.Due) : Waits s nextDueMs p := ⟨h.early, .inl h.due⟩

theorem Waits.kept (h : Waits s nextDueMs p) : Kept s nextDueMs p := ⟨h.early, .inr h.due⟩

theorem Due.kept (h : p.Due) : Kept s nextDueMs p := h.waits.kept

/-- A link that does not wait, or has waited long enough, may try. -/
theorem Waits.due_of (h : Waits s nextDueMs p) (hs : s ≠ .failed ∨ nextDueMs ≤ p.clock) :
    p.Due := by
  refine ⟨h.early, ?_⟩
  obtain hdue | ⟨hf, hn⟩ := h.due
  · exact hdue
  · exact hn ▸ hs.resolve_left fun hne => hne hf

theorem Waits.of_ne (h : Waits s nextDueMs p) (hs : s ≠ .failed) : p.Due := h.due_of (.inl hs)

/-- Where the modem has not been gone, the link waits. -/
theorem Kept.waits (h : Kept s nextDueMs p) (hl : p.lapsed = true → p.notBefore ≤ p.clock) :
    Waits s nextDueMs p :=
  ⟨h.early, h.due.elim (fun hp => .inl (hl hp)) id⟩

theorem Due.pass (h : p.Due) (ms : ℕ) : (p.pass ms).Due :=
  ⟨h.early, h.due.trans (Nat.le_add_right _ _)⟩

theorem Waits.pass (h : Waits s nextDueMs p) (ms : ℕ) : Waits s nextDueMs (p.pass ms) :=
  ⟨h.early, h.due.imp_left fun hp => hp.trans (Nat.le_add_right _ _)⟩

theorem Kept.pass (h : Kept s nextDueMs p) (ms : ℕ) : Kept s nextDueMs (p.pass ms) :=
  ⟨h.early, h.due.imp_right fun hd => hd.imp_left fun hp => hp.trans (Nat.le_add_right _ _)⟩

theorem Due.tried (h : p.Due) : p.tried.Due := by
  refine ⟨?_, h.due⟩
  have hdue := h.due
  simp [Pace.tried, h.early, hdue]

/-- The link and the trace agree about when the next try is due. -/
theorem waits_failed (h : p.early = false) (attempts : ℕ) :
    Waits .failed (p.clock + backoffMs attempts) (p.note (.failed attempts)) :=
  ⟨h, .inr ⟨rfl, rfl⟩⟩

theorem due_lifecycle (h : p.early = false) : (p.note .lifecycle).Due := ⟨h, Nat.zero_le _⟩

theorem gone_tick (h : p.early = false) : (p.note (.tick false)).Gone := ⟨h, Bool.or_true _⟩

theorem Kept.tick (h : Kept s nextDueMs p) (there : Bool) :
    Kept s nextDueMs (p.note (.tick there)) :=
  ⟨h.early, h.due.imp_left fun hl => by simp [note, hl]⟩

end Pace

namespace EcmLink

/-- A modem that has been gone during a wait comes back when it is over. -/
def patient : Rules Call Outcome Trace Job Empty EcmLink where
  starts j _ w := match j with
    | .tick status => w.pace.lapsed = true → status.present = true → status.responsive = true →
      w.pace.notBefore ≤ w.pace.clock
    | _ => True
  outcome _ _ _ _ := True
  reboots b _ := b.elim

instance (j : Job) (m : EcmLink) (w : Trace) : Decidable (patient.starts j m w) :=
  match j with
  | .tick status => inferInstanceAs (Decidable (w.pace.lapsed = true → status.present = true →
      status.responsive = true → w.pace.notBefore ≤ w.pace.clock))
  | .connect | .disconnect | .setConfig _ | .wait => .isTrue trivial

instance (j : Job ⊕ Empty) (w : Trace) (e : Call) (o : Outcome) :
    Decidable (patient.outcome j w e o) := .isTrue trivial

instance (b : Empty) (w : Trace) : Decidable (patient.reboots b w) := b.elim

/-- No try has been made before its time. -/
def Patient (w : Trace) : Prop := w.pace.early = false

section jobs

variable {w : Trace} {α : Type} {m : EcmLink}

/-- Whatever is asked for and answered, no try is made before its time, and `Q` holds at the end. -/
abbrev Bp (p : Ecm α) (w : Trace) (Q : α → Trace → Prop) : Prop :=
  p.Holds exec (fun _ _ _ => True) Patient w Q

/-- How the link stands after a step. -/
def Waits (m : EcmLink) (w : Trace) : Prop := w.pace.Waits m.st.state m.nextDueMs

/-- How the link stands between two operations. -/
def Kept (m : EcmLink) (w : Trace) : Prop := w.pace.Kept m.st.state m.nextDueMs

/-- A call that is no note. -/
def Call.Unnoted : Call → Prop
  | .note _ => False
  | .now | .command _ _ | .findInterface _ | .setUp _ _ | .dhcpStart _ | .dhcpStop _
  | .readAddress _ | .setAddress _ _ | .teardown _ => True

/-- A call that takes time and is no try. -/
def Call.Idle : Call → Prop
  | .command _ _ | .note _ => False
  | .now | .findInterface _ | .setUp _ _ | .dhcpStart _ | .dhcpStop _ | .readAddress _
  | .setAddress _ _ | .teardown _ => True

theorem Call.Idle.unnoted {e : Call} (he : e.Idle) : e.Unnoted := by
  cases e <;> trivial

theorem pace_idle {e : Call} (he : e.Idle) (o : Outcome) (w : Trace) :
    (exec e o w).2.pace = w.pace.pass o.elapsed := by
  cases e with
  | command cmd timeoutMs => exact he.elim
  | note n => exact he.elim
  | dhcpStart ifname =>
    change Pace.pass (if _ then _ else _ : Trace).pace _ = _
    split <;> rfl
  | now | findInterface _ | setUp _ _ | dhcpStop _ | readAddress _ | setAddress _ _
  | teardown _ => rfl

theorem due_exec {e : Call} (he : e.Unnoted) (h : w.pace.Due) (o : Outcome) :
    (exec e o w).2.pace.Due := by
  cases e with
  | note n => exact he.elim
  | command cmd timeoutMs => exact h.tried.pass o.elapsed
  | now | findInterface _ | setUp _ _ | dhcpStart _ | dhcpStop _ | readAddress _ | setAddress _ _
  | teardown _ =>
    rw [pace_idle]
    · exact h.pass o.elapsed
    · trivial

/-- Where a try is due, calls may be made. -/
theorem bp_due {p : Ecm α} {Q : α → Prop} (hp : p.Yields Call.Unnoted Q) (h : w.pace.Due) :
    Bp p w fun a w' => w'.pace.Due ∧ Q a :=
  hp.holds (I := fun w : Trace => w.pace.Due) (fun _ h => h.early)
    (fun _ o _ he h => due_exec he h o) h

theorem bp_ask {e : Call} {k : Answer e → Ecm α} {Q : α → Trace → Prop} (he : e.Unnoted)
    (h : w.pace.Due) (hk : ∀ a w', w'.pace.Due → Bp (k a) w' Q) :
    Bp (Prog.perform e >>= k) w Q :=
  Prog.holds_ask h.early fun o _ => hk _ _ (due_exec he h o)

theorem bp_fail {detail : String} (h : w.pace.early = false) : Bp (fail detail m) w Waits := by
  unfold fail
  refine Prog.holds_ask (e := Call.now) h fun o _ => ?_
  refine Prog.holds_ask (e := Call.note _) h fun o' _ => ?_
  have hw := Pace.waits_failed (p := w.pace.pass o.elapsed) h (m.st.attempts + 1)
  exact ⟨h, hw.pass 0⟩

theorem bp_switchMode {cmd : Text} {detail : String} (h : w.pace.Due) :
    Bp (switchMode cmd detail m) w Waits := by
  unfold switchMode
  refine bp_ask (e := .command _ _) trivial h fun _ w₁ h₁ => ?_
  refine bp_ask (e := .command _ _) trivial h₁ fun _ w₂ h₂ => ?_
  exact bp_ask (e := .now) trivial h₂ fun t w₃ h₃ => ⟨h₃.early, h₃.waits⟩

theorem bp_ensureNat (h : w.pace.Due) : Bp (ensureNat m) w Waits := by
  unfold ensureNat
  refine bp_ask (e := .command _ _) trivial h fun answer w₁ h₁ => ?_
  dsimp only
  split
  · exact bp_switchMode h₁
  · exact ⟨h₁.early, h₁.waits⟩

theorem bp_ensureMode (h : w.pace.Due) : Bp (ensureMode m) w Waits := by
  unfold ensureMode
  split
  · exact ⟨h.early, h.waits⟩
  refine bp_ask (e := .command _ _) trivial h fun answer w₁ h₁ => ?_
  split
  · exact bp_fail h₁.early
  split
  · exact bp_ensureNat h₁
  split
  · exact bp_fail h₁.early
  · exact bp_switchMode h₁

theorem bp_configurePdp (h : Waits m w) : Bp (configurePdp m) w Waits := by
  unfold configurePdp
  split
  · exact ⟨h.early, h⟩
  rename_i hs
  have h₀ : w.pace.Due := h.of_ne (by simp_all)
  split
  · exact bp_fail h₀.early
  refine bp_ask (e := .command _ _) trivial h₀ fun answer w₁ h₁ => ?_
  split
  · exact bp_fail h₁.early
  · exact bp_ask (e := .command _ _) trivial h₁ fun _ w₂ h₂ => ⟨h₂.early, h₂.waits⟩

theorem bp_startData (h : Waits m w) : Bp (startData m) w Waits := by
  unfold startData
  split
  · exact ⟨h.early, h⟩
  rename_i hs
  have h₀ : w.pace.Due := h.of_ne (by simp_all)
  refine bp_ask (e := .command _ _) trivial h₀ fun answer w₁ h₁ => ?_
  split
  · exact bp_fail h₁.early
  · exact bp_ask (e := .now) trivial h₁ fun _ w₂ h₂ => ⟨h₂.early, h₂.waits⟩

theorem bp_waitNetif (h : Waits m w) : Bp (waitNetif m) w Waits := by
  unfold waitNetif
  split
  · exact ⟨h.early, h⟩
  rename_i hs
  have h₀ : w.pace.Due := h.of_ne (by simp_all)
  refine bp_ask (e := .findInterface none) trivial h₀ fun found w₁ h₁ => ?_
  cases found with
  | none =>
    refine bp_ask (e := .now) trivial h₁ fun t w₂ h₂ => ?_
    split
    · exact bp_fail h₂.early
    · exact ⟨h₂.early, h₂.waits⟩
  | some name =>
    refine bp_ask (e := .setUp name true) trivial h₁ fun _ w₂ h₂ => ?_
    exact bp_ask (e := .now) trivial h₂ fun t w₃ h₃ => ⟨h₃.early, h₃.waits⟩

theorem stopDhcp_idle (m : EcmLink) : (stopDhcp m).Uses Call.Idle := by
  unfold stopDhcp
  split
  · exact ⟨trivial, fun _ => trivial⟩
  · trivial

theorem stopDhcp_unnoted (m : EcmLink) : (stopDhcp m).Uses Call.Unnoted :=
  (stopDhcp_idle m).mono fun _ => Call.Idle.unnoted

theorem bp_interfaceGone (h : w.pace.Due) : Bp (interfaceGone m) w Waits := by
  unfold interfaceGone
  refine Prog.holds_bind.mpr ((bp_due (stopDhcp_unnoted m) h).mono fun m₁ w₁ _ h₁ => ?_)
  exact bp_fail h₁.1.early

theorem startDhcp_unnoted (m : EcmLink) : (startDhcp m).Uses Call.Unnoted := by
  unfold startDhcp
  split
  · trivial
  · refine ⟨trivial, fun ok => ?_⟩
    cases ok <;> trivial

theorem bp_staticAddress {rdp : PdpContextParams} (h : w.pace.Due) :
    Bp (staticAddress rdp m) w Waits := by
  unfold staticAddress
  refine bp_ask (e := .dhcpStop _) trivial h fun _ w₁ h₁ => ?_
  dsimp only
  split
  · exact bp_fail h₁.early
  · refine bp_ask (e := .setAddress _ _) trivial h₁ fun ok w₂ h₂ => ?_
    split
    · exact ⟨h₂.early, h₂.waits⟩
    · exact bp_fail h₂.early

theorem bp_awaitAddress {rdp : PdpContextParams} (h : w.pace.Due) :
    Bp (awaitAddress rdp m) w Waits := by
  unfold awaitAddress
  refine bp_ask (e := .readAddress _) trivial h fun a w₁ h₁ => ?_
  dsimp only
  split
  · exact ⟨h₁.early, h₁.waits⟩
  · refine bp_ask (e := .now) trivial h₁ fun t w₂ h₂ => ?_
    split
    · exact bp_staticAddress h₂
    · exact ⟨h₂.early, h₂.waits⟩

theorem bp_addressing (h : w.pace.Due) : Bp (addressing m) w Waits := by
  unfold addressing
  refine bp_ask (e := .findInterface _) trivial h fun there w₁ h₁ => ?_
  split
  · exact bp_interfaceGone h₁
  · refine bp_ask (e := .command _ _) trivial h₁ fun reply w₂ h₂ => ?_
    refine Prog.holds_bind.mpr ((bp_due (startDhcp_unnoted _) h₂).mono ?_)
    rintro ⟨ok, m₃⟩ w₃ _ ⟨h₃, -⟩
    dsimp only
    split
    · exact bp_awaitAddress h₃
    · exact bp_fail h₃.early

theorem bp_keepUp (h : w.pace.Due) : Bp (keepUp m) w Waits := by
  unfold keepUp
  refine bp_ask (e := .findInterface _) trivial h fun there w₁ h₁ => ?_
  split
  · exact bp_interfaceGone h₁
  · refine bp_ask (e := .readAddress _) trivial h₁ fun a w₂ h₂ => ?_
    dsimp only
    split
    · exact ⟨h₂.early, h₂.waits⟩
    · exact bp_ask (e := .now) trivial h₂ fun t w₃ h₃ => ⟨h₃.early, h₃.waits⟩

theorem bp_advance (h : w.pace.Due) : Bp (advance m) w Waits := by
  unfold advance
  refine Prog.holds_bind.mpr ((bp_ensureMode h).mono fun m₁ w₁ _ h₁ => ?_)
  refine Prog.holds_bind.mpr ((bp_configurePdp h₁).mono fun m₂ w₂ _ h₂ => ?_)
  refine Prog.holds_bind.mpr ((bp_startData h₂).mono fun m₃ w₃ _ h₃ => ?_)
  refine Prog.holds_bind.mpr ((bp_waitNetif h₃).mono fun m₄ w₄ _ h₄ => ?_)
  split
  · rename_i hs
    exact bp_addressing (h₄.of_ne (by simp [hs]))
  · rename_i hs
    exact bp_keepUp (h₄.of_ne (by simp [hs]))
  · exact ⟨h₄.early, h₄⟩

/-- A link that does not wait on may try. -/
theorem bp_waiting (h : Waits m w) : Bp (waiting m) w fun waits w' =>
    Waits m w' ∧ (waits = false → w'.pace.Due) := by
  unfold waiting
  split
  · rename_i hs
    refine ⟨h.early, h, fun _ => Pace.Waits.due_of h (hs.imp_right fun hzero => ?_)⟩
    exact hzero ▸ Nat.zero_le _
  · refine ⟨h.early, fun o _ => ⟨h.early, Pace.Waits.pass h o.elapsed, fun hw => ?_⟩⟩
    have hreached : m.nextDueMs ≤ w.pace.clock + o.elapsed :=
      Nat.le_of_not_lt (of_decide_eq_false hw)
    exact (Pace.Waits.pass h o.elapsed).due_of (.inr hreached)

theorem waits_cameBack (h : Waits m w) : Waits m.cameBack w := by
  unfold cameBack
  split
  · rename_i hs
    exact (h.of_ne (by simp [hs])).waits
  · exact h

theorem bp_proceed {status : CellularStatus} (h : Waits m w) : Bp (proceed status m) w Waits := by
  unfold proceed
  refine Prog.holds_bind.mpr ((bp_waiting (waits_cameBack h)).mono fun waits w₁ _ h₁ => ?_)
  split
  · exact ⟨h₁.1.early, h₁.1⟩
  rename_i hwaits
  -- from here on the time of the next try has come
  have hdue := h₁.2 (by simpa using hwaits)
  split
  · exact ⟨hdue.early, hdue.waits⟩
  split
  · exact ⟨hdue.early, hdue.waits⟩
  · exact bp_advance hdue

/-- What is done for a modem that is gone is no try. -/
theorem bp_gone {p : Ecm α} (hp : p.Uses Call.Idle) (h : w.pace.Gone) :
    Bp p w fun _ w' => w'.pace.Gone := by
  refine hp.holds (I := fun w : Trace => w.pace.Gone) (fun _ h => h.early) (fun _ o w he h => ?_) h
  rw [pace_idle he]
  exact h.pass o.elapsed

theorem bp_modemGone {present : Bool} (h : w.pace.Gone) : Bp (modemGone present m) w Kept := by
  unfold modemGone
  refine Prog.holds_bind.mpr ((bp_gone (stopDhcp_idle _) h).mono fun m₁ w₁ _ h₁ => ?_)
  dsimp only
  split
  · have hnow : now.Uses Call.Idle := ⟨trivial, fun _ => trivial⟩
    refine Prog.holds_bind.mpr ((bp_gone hnow h₁).mono fun t w₂ _ h₂ => ?_)
    split
    · exact (bp_fail h₂.early).mono fun _ _ _ h' => Pace.Waits.kept h'
    · exact ⟨h₂.early, h₂.kept⟩
  split
  · exact ⟨h₁.early, h₁.kept⟩
  · exact ⟨h₁.early, h₁.kept⟩

theorem dropInterface_unnoted (m : EcmLink) : (dropInterface m).Uses Call.Unnoted := by
  unfold dropInterface
  split
  · trivial
  · exact ⟨trivial, fun _ => trivial⟩

/-- With the lifecycle the wait ends. -/
theorem bp_disconnect (h : w.pace.early = false) : Bp (disconnect m) w Kept := by
  unfold disconnect
  refine Prog.holds_ask (e := Call.note .lifecycle) h fun o _ => ?_
  have h₁ : (exec (.note .lifecycle) o w).2.pace.Due := (Pace.due_lifecycle h).pass 0
  refine Prog.holds_bind.mpr ((bp_due (stopDhcp_unnoted _) h₁).mono fun m₂ w₂ _ h₂ => ?_)
  refine Prog.holds_bind.mpr ((bp_due (dropInterface_unnoted m₂) h₂.1).mono fun m₃ w₃ _ h₃ => ?_)
  exact ⟨h₃.1.early, h₃.1.kept⟩

theorem bp_connect (h : Kept m w) : Bp (connect m) w Kept := by
  unfold connect
  split
  · exact ⟨h.early, h⟩
  · refine Prog.holds_ask (e := Call.note .lifecycle) h.early fun o _ => ?_
    have h₁ : (exec (.note .lifecycle) o w).2.pace.Due := (Pace.due_lifecycle h.early).pass 0
    exact ⟨h₁.early, h₁.kept⟩

theorem bp_tick {status : CellularStatus} (h : Kept m w)
    (hp : w.pace.lapsed = true → status.present = true → status.responsive = true →
      w.pace.notBefore ≤ w.pace.clock) : Bp (tick status m) w Kept := by
  unfold tick
  refine Prog.holds_ask (e := Call.note _) h.early fun o _ => ?_
  have h₁ : Kept m (exec (.note (.tick (status.present && status.responsive))) o w).2 :=
    (h.tick _).pass 0
  have hgone (hs : (status.present && status.responsive) = false) :
      (exec (.note (.tick (status.present && status.responsive))) o w).2.pace.Gone := by
    rw [hs]
    exact (Pace.gone_tick h.early).pass 0
  split
  · split
    · exact bp_disconnect h₁.early
    · exact ⟨h₁.early, h₁⟩
  -- a silent modem is put up with for a few ticks, in which nothing is tried
  split
  · rename_i htol
    have hs : (status.present && status.responsive) = false := by simp_all [tolerated]
    exact ⟨h₁.early, (hgone hs).kept⟩
  split
  · rename_i hs
    exact bp_modemGone (hgone (by simpa [← Bool.not_and] using hs))
  · rename_i hs
    obtain ⟨hthere, hanswers⟩ : status.present = true ∧ status.responsive = true := by
      simpa using hs
    have hwaits : Waits { m with unresponsiveTicks := 0 }
        (exec (.note (.tick (status.present && status.responsive))) o w).2 := by
      refine h₁.waits fun hl => ?_
      refine hp ?_ hthere hanswers
      simpa [exec, Trace.record, Pace.note, Pace.pass, hthere, hanswers] using hl
    exact (bp_proceed hwaits).mono fun _ _ _ h' => Pace.Waits.kept h'

theorem keeps_patient : machine.Keeps patient Patient Kept where
  job j m w _ h hj := by
    cases j with
    | connect => exact bp_connect h
    | disconnect => exact bp_disconnect h.early
    | setConfig c => exact ⟨h.early, h⟩
    | tick status => exact bp_tick h hj
    | wait => exact ⟨h.early, fun o _ => ⟨h.early, h.pass o.elapsed⟩⟩
  boot b := b.elim

end jobs

end EcmLink

namespace PppLink

/-- A modem that has been gone during a wait comes back when it is over. -/
def patient : Rules Call Outcome Trace Job Empty PppLink where
  starts j _ w := match j with
    | .tick status => w.pace.lapsed = true → status.present = true → status.responsive = true →
      w.pace.notBefore ≤ w.pace.clock
    | _ => True
  outcome _ _ _ _ := True
  reboots b _ := b.elim

instance (j : Job) (m : PppLink) (w : Trace) : Decidable (patient.starts j m w) :=
  match j with
  | .tick status => inferInstanceAs (Decidable (w.pace.lapsed = true → status.present = true →
      status.responsive = true → w.pace.notBefore ≤ w.pace.clock))
  | .connect | .disconnect | .setConfig _ | .setModemPort _ | .wait => .isTrue trivial

instance (j : Job ⊕ Empty) (w : Trace) (e : Call) (o : Outcome) :
    Decidable (patient.outcome j w e o) := .isTrue trivial

instance (b : Empty) (w : Trace) : Decidable (patient.reboots b w) := b.elim

/-- No try has been made before its time. -/
def Patient (w : Trace) : Prop := w.pace.early = false

section jobs

variable {w : Trace} {α : Type} {m : PppLink}

/-- Whatever is asked for and answered, no try is made before its time, and `Q` holds at the end. -/
abbrev Bp (p : Ppp α) (w : Trace) (Q : α → Trace → Prop) : Prop :=
  p.Holds exec (fun _ _ _ => True) Patient w Q

/-- How the link stands after a step. -/
def Waits (m : PppLink) (w : Trace) : Prop := w.pace.Waits m.st.state m.nextDueMs

/-- How the link stands between two operations. -/
def Kept (m : PppLink) (w : Trace) : Prop := w.pace.Kept m.st.state m.nextDueMs

/-- A call that is no note. -/
def Call.Unnoted : Call → Prop
  | .note _ => False
  | .now | .command _ _ | .status | .start _ | .stop => True

theorem due_exec {e : Call} (he : e.Unnoted) (h : w.pace.Due) (o : Outcome) :
    (exec e o w).2.pace.Due := by
  cases e with
  | note n => exact he.elim
  | command cmd timeoutMs => exact h.tried.pass o.elapsed
  | start req => exact h.tried.pass o.elapsed
  | now => exact h.pass o.elapsed
  | status => exact h.pass o.elapsed
  | stop => exact h.pass o.elapsed

theorem bp_ask {e : Call} {k : Answer e → Ppp α} {Q : α → Trace → Prop} (he : e.Unnoted)
    (h : w.pace.Due) (hk : ∀ a w', w'.pace.Due → Bp (k a) w' Q) :
    Bp (Prog.perform e >>= k) w Q :=
  Prog.holds_ask h.early fun o _ => hk _ _ (due_exec he h o)

/-- Stopping the process takes its time and nothing else. -/
theorem bp_stopProcess {I : Pace → Prop} (hI : ∀ p, I p → p.early = false)
    (hpass : ∀ p ms, I p → I (p.pass ms)) (h : I w.pace) :
    Bp (stopProcess m) w fun m' w' => I w'.pace ∧ m'.nextDueMs = m.nextDueMs := by
  unfold stopProcess
  split
  · have hstopped (o : Outcome) : I (exec .stop o w).2.pace := hpass _ o.elapsed h
    exact ⟨hI _ h, fun o _ => ⟨hI _ (hstopped o), hstopped o, rfl⟩⟩
  · exact ⟨hI _ h, h, rfl⟩

theorem bp_fail {detail : String} (h : w.pace.early = false) : Bp (fail detail m) w Waits := by
  unfold fail
  refine Prog.holds_ask (e := Call.now) h fun o _ => ?_
  refine Prog.holds_ask (e := Call.note _) h fun o' _ => ?_
  have hw := (Pace.waits_failed (p := w.pace.pass o.elapsed) h (m.st.attempts + 1)).pass 0
  refine Prog.holds_bind.mpr
    ((bp_stopProcess (fun _ hp => hp.early) (fun _ ms hp => hp.pass ms) hw).mono ?_)
  intro m₂ w₂ hw₂ h₂
  refine ⟨hw₂, ?_⟩
  have hdue : m₂.nextDueMs = w.pace.clock + o.elapsed + backoffMs (m.st.attempts + 1) := h₂.2
  change w₂.pace.Waits .failed m₂.nextDueMs
  rw [hdue]
  exact h₂.1

theorem bp_negotiate {ps : PppStatus} (h : w.pace.Due) : Bp (negotiate ps m) w Waits := by
  unfold negotiate
  refine bp_ask (e := .now) trivial h fun t w₁ h₁ => ?_
  dsimp only
  split
  · exact bp_fail h₁.early
  split
  · exact ⟨h₁.early, h₁.waits⟩
  · exact ⟨h₁.early, h₁.waits⟩

theorem bp_supervise {ps : Option PppStatus} (h : w.pace.Due) :
    Bp (supervise ps m) w Waits := by
  unfold supervise
  cases ps with
  | none => exact ⟨h.early, h.waits⟩
  | some ps =>
    dsimp only
    split
    · exact bp_fail h.early
    split
    · exact ⟨h.early, h.waits⟩
    · exact bp_negotiate h

theorem bp_dial (h : w.pace.Due) : Bp (dial m) w Waits := by
  unfold dial
  split
  · exact ⟨h.early, h.waits⟩
  split
  · exact bp_fail h.early
  refine bp_ask (e := .command _ _) trivial h fun _ w₁ h₁ => ?_
  refine bp_ask (e := .command _ _) trivial h₁ fun reply w₂ h₂ => ?_
  split
  · exact bp_fail h₂.early
  refine bp_ask (e := .start _) trivial h₂ fun ok w₃ h₃ => ?_
  split
  · exact bp_fail h₃.early
  · exact bp_ask (e := .now) trivial h₃ fun t w₄ h₄ => ⟨h₄.early, h₄.waits⟩

/-- A link that does not wait on may try. -/
theorem bp_waiting (h : Waits m w) : Bp (waiting m) w fun waits w' =>
    Waits m w' ∧ (waits = false → w'.pace.Due) := by
  unfold waiting
  split
  · rename_i hs
    refine ⟨h.early, h, fun _ => Pace.Waits.due_of h (hs.imp_right fun hzero => ?_)⟩
    exact hzero ▸ Nat.zero_le _
  · refine ⟨h.early, fun o _ => ⟨h.early, Pace.Waits.pass h o.elapsed, fun hw => ?_⟩⟩
    have hreached : m.nextDueMs ≤ w.pace.clock + o.elapsed :=
      Nat.le_of_not_lt (of_decide_eq_false hw)
    exact (Pace.Waits.pass h o.elapsed).due_of (.inr hreached)

theorem bp_proceed {status : CellularStatus} {ps : Option PppStatus} (h : Waits m w) :
    Bp (proceed status ps m) w Waits := by
  unfold proceed
  refine Prog.holds_bind.mpr ((bp_waiting h).mono fun waits w₁ _ h₁ => ?_)
  split
  · exact ⟨h₁.1.early, h₁.1⟩
  rename_i hwaits
  have hdue := h₁.2 (by simpa using hwaits)
  split
  · exact ⟨hdue.early, hdue.waits⟩
  split
  · exact ⟨hdue.early, hdue.waits⟩
  split
  · exact bp_supervise hdue
  · exact bp_dial hdue

theorem bp_modemGone {present : Bool} (h : w.pace.Gone) : Bp (modemGone present m) w Kept := by
  unfold modemGone
  refine Prog.holds_bind.mpr
    ((bp_stopProcess (fun _ hp => hp.early) (fun _ ms hp => hp.pass ms) h).mono ?_)
  intro m₁ w₁ _ h₁
  dsimp only
  split
  · exact ⟨h₁.1.early, h₁.1.kept⟩
  · exact ⟨h₁.1.early, h₁.1.kept⟩

/-- With the lifecycle the wait ends. -/
theorem bp_disconnect (h : w.pace.early = false) : Bp (disconnect m) w Kept := by
  unfold disconnect
  refine Prog.holds_ask (e := Call.note .lifecycle) h fun o _ => ?_
  have h₁ : (exec (.note .lifecycle) o w).2.pace.Due := (Pace.due_lifecycle h).pass 0
  refine Prog.holds_bind.mpr
    ((bp_stopProcess (fun _ hp => hp.early) (fun _ ms hp => hp.pass ms) h₁).mono ?_)
  exact fun m₂ w₂ hw₂ h₂ => ⟨hw₂, h₂.1.kept⟩

theorem bp_connect (h : Kept m w) : Bp (connect m) w Kept := by
  unfold connect
  split
  · exact ⟨h.early, h⟩
  · refine Prog.holds_ask (e := Call.note .lifecycle) h.early fun o _ => ?_
    have h₁ : (exec (.note .lifecycle) o w).2.pace.Due := (Pace.due_lifecycle h.early).pass 0
    exact ⟨h₁.early, h₁.kept⟩

theorem bp_tick {status : CellularStatus} (h : Kept m w)
    (hp : w.pace.lapsed = true → status.present = true → status.responsive = true →
      w.pace.notBefore ≤ w.pace.clock) : Bp (tick status m) w Kept := by
  unfold tick
  refine Prog.holds_ask (e := Call.note _) h.early fun o _ => ?_
  have h₁ : Kept m (exec (.note (.tick (status.present && status.responsive))) o w).2 :=
    (h.tick _).pass 0
  split
  · split
    · exact bp_disconnect h₁.early
    · exact ⟨h₁.early, h₁⟩
  refine Prog.holds_ask (e := Call.status) h₁.early fun o' _ => ?_
  split
  · rename_i hs
    have hs : (status.present && status.responsive) = false := by simpa [← Bool.not_and] using hs
    refine bp_modemGone ?_
    rw [hs]
    exact ((Pace.gone_tick h.early).pass 0).pass o'.elapsed
  · rename_i hs
    obtain ⟨hthere, hanswers⟩ : status.present = true ∧ status.responsive = true := by
      simpa using hs
    have hwaits : Waits m (exec (.note (.tick (status.present && status.responsive))) o w).2 := by
      refine h₁.waits fun hl => ?_
      refine hp ?_ hthere hanswers
      simpa [exec, Trace.record, Pace.note, Pace.pass, hthere, hanswers] using hl
    refine (bp_proceed (Pace.Waits.pass hwaits o'.elapsed)).mono ?_
    exact fun _ _ _ h' => Pace.Waits.kept h'

theorem keeps_patient : machine.Keeps patient Patient Kept where
  job j m w _ h hj := by
    cases j with
    | connect => exact bp_connect h
    | disconnect => exact bp_disconnect h.early
    | setConfig c => exact ⟨h.early, h⟩
    | setModemPort tty => exact ⟨h.early, h⟩
    | tick status => exact bp_tick h hj
    | wait => exact ⟨h.early, fun o _ => ⟨h.early, h.pass o.elapsed⟩⟩
  boot b := b.elim

end jobs

end PppLink

/-- As long as a modem that has been gone during a wait does not come back before it is over, both
kinds of link make no try before the back-off after the last failure has run out. -/
theorem backoff_run (is : List (Input EcmLink.Outcome EcmLink.Job Empty))
    (js : List (Input PppLink.Outcome PppLink.Job Empty))
    (hi : Along EcmLink.machine.step EcmLink.patient.Admissible (EcmLink.idle {} {}) is)
    (hj : Along PppLink.machine.step PppLink.patient.Admissible (PppLink.idle {} {}) js) :
    Always EcmLink.machine.step (fun s => EcmLink.Patient s.world) (EcmLink.idle {} {}) is ∧
      Always PppLink.machine.step (fun s => PppLink.Patient s.world) (PppLink.idle {} {}) js := by
  have hecm : EcmLink.Kept {} {} := ⟨rfl, .inr (.inl (Nat.le_refl 0))⟩
  have hppp : PppLink.Kept {} {} := ⟨rfl, .inr (.inl (Nat.le_refl 0))⟩
  exact ⟨EcmLink.keeps_patient.run ⟨rfl, hecm⟩ hi, PppLink.keeps_patient.run ⟨rfl, hppp⟩ hj⟩

/-- A modem that refuses every command, each call taking so long. -/
def EcmLink.refusing (elapsed : ℕ) : EcmLink.Outcome where
  elapsed := elapsed
  answer
    | .now => 0
    | .command _ _ => { result := .error, raw := "ERROR\n".toList }
    | .findInterface _ | .readAddress _ => none
    | .setUp _ _ | .dhcpStart _ | .dhcpStop _ | .setAddress _ _ => false
    | .teardown _ | .note _ => ()

/-- The same modem under a link that dials. -/
def PppLink.refusing (elapsed : ℕ) : PppLink.Outcome where
  elapsed := elapsed
  answer
    | .now => 0
    | .command _ _ => { result := .error, raw := "ERROR\n".toList }
    | .status => none
    | .start _ => false
    | .stop | .note _ => ()

/-- The modem is gone during the wait, and comes back when it is over. -/
theorem backoff_run_patient :
    Always EcmLink.machine.step (fun s => EcmLink.Patient s.world) (EcmLink.idle {} {})
      (.start .connect :: .answer (EcmLink.refusing 0) ::
        .start (.tick registered) :: List.replicate 4 (.answer (EcmLink.refusing 0)) ++
        .start (.tick { registered with responsive := false }) ::
          .answer (EcmLink.refusing 0) :: .start .wait :: .answer (EcmLink.refusing 2000) ::
        .start (.tick registered) :: List.replicate 4 (.answer (EcmLink.refusing 0))) ∧
    Always PppLink.machine.step (fun s => PppLink.Patient s.world) (PppLink.idle {} {})
      (.start .connect :: .answer (PppLink.refusing 0) :: .start (.setModemPort "ttyUSB4".toList) ::
        .start (.tick registered) :: List.replicate 4 (.answer (PppLink.refusing 0)) ++
        .start (.tick { registered with responsive := false }) ::
          .answer (PppLink.refusing 0) :: .answer (PppLink.refusing 0) ::
        .start .wait :: .answer (PppLink.refusing 2000) ::
        .start (.tick registered) :: List.replicate 4 (.answer (PppLink.refusing 0))) := by
  refine backoff_run _ _ ?_ ?_
  · decide
  · decide

/-- A tick without an answer takes the link out of its wait, and the next one tries again. -/
theorem not_patient_outage :
    ¬ EcmLink.Patient (run EcmLink.machine.step (EcmLink.idle {} {})
      (.start .connect :: .answer (EcmLink.refusing 0) ::
        .start (.tick registered) :: List.replicate 4 (.answer (EcmLink.refusing 0)) ++
        .start (.tick { registered with responsive := false }) :: .answer (EcmLink.refusing 0) ::
        .start (.tick registered) :: List.replicate 2 (.answer (EcmLink.refusing 0)))).world ∧
    ¬ PppLink.Patient (run PppLink.machine.step (PppLink.idle {} {})
      (.start (.setConfig { apn := "internet".toList }) ::
        .start (.setModemPort "ttyUSB4".toList) :: .start .connect :: .answer (PppLink.refusing 0) ::
        .start (.tick registered) :: List.replicate 6 (.answer (PppLink.refusing 0)) ++
        .start (.tick { registered with responsive := false }) ::
          List.replicate 2 (.answer (PppLink.refusing 0)) ++
        .start (.tick registered) :: List.replicate 3 (.answer (PppLink.refusing 0)))).world := by
  unfold EcmLink.Patient PppLink.Patient
  constructor
  · decide
  · decide

end Machino.Cellular
