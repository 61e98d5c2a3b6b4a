import Machino.Basic.Runs
import Machino.Night.NightService

namespace Machino.Night

open Runs

structure AutoState where
  enabled : Bool
  sensing : Bool
  dark : Option Bool
  pendingS : Option ℤ
  error : String

def NightService.autoState (m : NightService) (get : String → Text) : AutoState :=
  let enabled := (m.pins get).lightMonitor
  { enabled
    sensing := enabled && m.auto.inputPin ≠ [] && m.auto.error = ""
    dark := m.auto.raw
    pendingS := m.auto.pendingS
    error := if m.auto.error ≠ "" then m.auto.error else m.auto.switchError }

variable {P : Type}

/-- Settings that stay as they are. -/
def Answers.settled (a : Answers) (get : String → Text) : Answers :=
  { a with sensorGet := get, modeGet := get, ircut.get := get, light.get := get }

/-- The service, and whether the latest call that drove the filter or the light failed without
another light state since. -/
structure Watch (P : Type) where
  s : State P
  ircutFailed : Bool := false
  lightFailed : Bool := false

section drive

variable (g : Gpio P)

/-- An actuator is driven where it follows the mode. -/
def driveWhere (follows : Bool) (drive : State P → Except String Unit × State P) (s : State P) :
    Option (Except String Unit) × State P :=
  if follows then (drive s).map some id else (none, s)

/-- What a switch makes of the filter and of the light, where it drives them. -/
def drives (a : Answers) (on : Bool) (s : State P) :
    Option (Except String Unit) × Option (Except String Unit) :=
  match a.mode on with
  | .error _ => (none, none)
  | .ok () =>
    let p := s.m.pins a.modeGet
    let filter := driveWhere p.ircutFollows (driveIrcut g a.ircut (!on)) { s with m.night := on }
    (filter.1, (driveWhere p.lightFollows (driveLight g a.light on) filter.2).1)

/-- The sensor tells of another light state than the one the mode was set for. -/
def turned (a : Answers) (now : ℤ) (m : NightService) : Bool :=
  (sense g a (m.pins a.sensorGet) now m.auto).2.any fun dark => m.auto.committed ≠ some dark

/-- The filter's error comes before the light's. -/
def firstError (r : Option (Except String Unit) × Option (Except String Unit)) :
    Except String Unit :=
  match r.1.getD (.ok ()) with
  | .error e => .error e
  | .ok () => r.2.getD (.ok ())

def failedBy (before : Bool) : Option (Except String Unit) → Bool
  | none => before
  | some r => !r.isOk

/-- A tick at a time, with what is answered in it. -/
def Watch.tick (get : String → Text) (w : Watch P) (i : ℤ × Answers) : Watch P :=
  let a := i.2.settled get
  let before (failed : Bool) := failed && !turned g a i.1 w.s.m
  let results :=
    match plan g a i.1 w.s.m with
    | (_, none) => (none, none)
    | (auto, some sw) => drives g a sw.dark { w.s with m.auto := auto }
  { s := Night.tick g a i.1 w.s
    ircutFailed := failedBy (before w.ircutFailed) results.1
    lightFailed := failedBy (before w.lightFailed) results.2 }

def Watch.Failed (w : Watch P) : Prop := w.ircutFailed = true ∨ w.lightFailed = true

/-- What has failed shows. -/
def Watch.Visible (get : String → Text) (w : Watch P) : Prop :=
  w.Failed → (w.s.m.autoState get).error ≠ ""

instance (get : String → Text) (w : Watch P) : Decidable (w.Visible get) :=
  inferInstanceAs (Decidable (_ ∨ _ → _))

/-- An actuator that has failed is to be driven again at night, and the image control fails. -/
def Watch.Masks (get : String → Text) (w : Watch P) (i : ℤ × Answers) : Prop :=
  w.Failed ∧ i.2.override.isOk = false ∧
    (plan g (i.2.settled get) i.1 w.s.m).2 = some { dark := true, again := true }

end drive

/-- A result that says what is wrong, if anything is. -/
def Speaks (r : Except String Unit) : Prop := ∀ e, r = .error e → e ≠ ""

theorem speaks_ok : Speaks (.ok ()) := nofun

theorem speaks_error {e : String} (h : e ≠ "") : Speaks (.error e) :=
  fun _ he => Except.error.inj he ▸ h

theorem append_ne_empty {a b : String} (h : a ≠ "") : a ++ b ≠ "" :=
  fun hab => h (String.append_eq_empty_iff.mp hab).1

theorem gpioErr_ne_empty {what : String} (pin : Text) (r : Result) (h : what ≠ "") :
    gpioErr what pin r ≠ "" := by
  unfold gpioErr
  exact append_ne_empty (append_ne_empty (append_ne_empty (append_ne_empty (append_ne_empty h))))

/-- A step of the drives says what is wrong and leaves the settings and the automation alone. -/
structure Sound (s : State P) (r : Except String Unit × State P) : Prop where
  speaks : Speaks r.1
  pins : r.2.m.pins = s.m.pins
  auto : r.2.m.auto = s.m.auto

variable {g : Gpio P} {s : State P}

theorem sound_hold (n1 : Text) (invert engaged : Bool) (a : IrcutAnswers) :
    Sound s (hold g n1 invert a engaged s) := by
  unfold hold
  dsimp only
  split
  · exact ⟨speaks_error (gpioErr_ne_empty _ _ (by decide)), rfl, rfl⟩
  split
  · exact ⟨speaks_error (gpioErr_ne_empty _ _ (by decide)), rfl, rfl⟩
  · exact ⟨speaks_ok, rfl, rfl⟩

theorem sound_pulse (n1 n2 : Text) (engaged : Bool) (a : IrcutAnswers) :
    Sound s (pulse g n1 n2 a engaged s) := by
  unfold pulse
  dsimp only
  split
  · exact ⟨speaks_error (gpioErr_ne_empty _ _ (by decide)), rfl, rfl⟩
  split
  · exact ⟨speaks_error (gpioErr_ne_empty _ _ (by decide)), rfl, rfl⟩
  · exact ⟨speaks_ok, rfl, rfl⟩

theorem speaks_wiring (p : NightPins) (available : Bool) {e : String}
    (h : g.wiring p available = .error e) : e ≠ "" := by
  unfold Gpio.wiring at h
  dsimp only at h
  split_ifs at h
  all_goals cases h
  · decide
  · decide
  · decide
  · exact append_ne_empty (append_ne_empty (by decide))
  · exact append_ne_empty (append_ne_empty (by decide))

theorem sound_driveIrcut (a : IrcutAnswers) (engaged : Bool) :
    Sound s (driveIrcut g a engaged s) := by
  unfold driveIrcut
  dsimp only
  split
  · exact ⟨speaks_error (speaks_wiring _ _ ‹_›), rfl, rfl⟩
  · exact sound_hold _ _ _ _
  split
  · exact ⟨speaks_ok, rfl, rfl⟩
  · exact sound_pulse _ _ _ _

theorem sound_driveLight (a : LightAnswers) (on : Bool) : Sound s (driveLight g a on s) := by
  unfold driveLight
  dsimp only
  split_ifs
  · exact ⟨speaks_error (by decide), rfl, rfl⟩
  · exact ⟨speaks_error (by decide), rfl, rfl⟩
  · exact ⟨speaks_error (by decide), rfl, rfl⟩
  · exact ⟨speaks_error (append_ne_empty (append_ne_empty (by decide))), rfl, rfl⟩
  · exact ⟨speaks_error (gpioErr_ne_empty _ _ (by decide)), rfl, rfl⟩
  · exact ⟨speaks_error (gpioErr_ne_empty _ _ (by decide)), rfl, rfl⟩
  · exact ⟨speaks_ok, rfl, rfl⟩

variable {a : Answers} {on : Bool}

theorem Sound.where_ {drive : State P → Except String Unit × State P}
    (h : ∀ s, Sound s (drive s)) (follows : Bool) (s : State P) :
    (if follows then drive s else (.ok (), s)) =
        ((driveWhere follows drive s).1.getD (.ok ()), (driveWhere follows drive s).2) ∧
      Sound s ((driveWhere follows drive s).1.getD (.ok ()), (driveWhere follows drive s).2) := by
  cases follows with
  | true => exact ⟨rfl, h s⟩
  | false => exact ⟨rfl, speaks_ok, rfl, rfl⟩

theorem sound_setNightLocked (a : Answers) (on : Bool) (s : State P) :
    Sound s (setNightLocked g a on s).2 ∧ (setNightLocked g a on s).1 = a.mode on ∧
      (setNightLocked g a on s).2.1 = firstError (drives g a on s) := by
  unfold setNightLocked drives
  cases hmode : a.mode on with
  | error e => exact ⟨⟨speaks_ok, rfl, rfl⟩, rfl, rfl⟩
  | ok u =>
    obtain ⟨hfilter, hfiltered⟩ := Sound.where_
      (fun s => sound_driveIrcut (g := g) (s := s) a.ircut (!on))
      (s.m.pins a.modeGet).ircutFollows { s with m.night := on }
    dsimp only
    rw [hfilter]
    generalize driveWhere (s.m.pins a.modeGet).ircutFollows (driveIrcut g a.ircut (!on))
      { s with m.night := on } = x at hfiltered ⊢
    obtain ⟨hlight, hlit⟩ := Sound.where_
      (fun s => sound_driveLight (g := g) (s := s) a.light on)
      (s.m.pins a.modeGet).lightFollows x.2
    dsimp only
    rw [hlight]
    unfold firstError
    have hpins := hlit.pins.trans hfiltered.pins
    have hauto := hlit.auto.trans hfiltered.auto
    cases hx : x.1.getD (.ok ()) with
    | error e =>
      rw [hx] at hfiltered
      exact ⟨⟨hfiltered.speaks, hpins, hauto⟩, rfl, rfl⟩
    | ok v => exact ⟨⟨hlit.speaks, hpins, hauto⟩, rfl, rfl⟩

/-- What fails is driven because it follows the mode; where the mode can be set, what follows it is
driven. -/
theorem drives_isSome (a : Answers) (on : Bool) (s : State P) :
    (drives g a on s).1.isSome = ((a.mode on).isOk && (s.m.pins a.modeGet).ircutFollows) ∧
      (drives g a on s).2.isSome = ((a.mode on).isOk && (s.m.pins a.modeGet).lightFollows) := by
  have hwhere (follows : Bool) (drive : State P → Except String Unit × State P) (s : State P) :
      (driveWhere follows drive s).1.isSome = follows := by
    cases follows with
    | true => rfl
    | false => rfl
  unfold drives
  cases hmode : a.mode on with
  | error e => exact ⟨rfl, rfl⟩
  | ok u => exact ⟨hwhere _ _ _, hwhere _ _ _⟩

theorem error_of_failed {r : Option (Except String Unit)} (h : failedBy false r = true) :
    ∃ e, r = some (.error e) := by
  rcases r with _ | e | u
  · exact absurd h Bool.false_ne_true
  · exact ⟨e, rfl⟩
  · exact absurd h Bool.false_ne_true

/-- An error of either is the first error of both. -/
theorem firstError_of_failed {r : Option (Except String Unit) × Option (Except String Unit)}
    (h : failedBy false r.1 = true ∨ failedBy false r.2 = true) :
    ∃ e, firstError r = .error e := by
  unfold firstError
  cases hfilter : r.1.getD (.ok ()) with
  | error e => exact ⟨e, rfl⟩
  | ok u =>
    rcases h with h | h
    · obtain ⟨e, he⟩ := error_of_failed h
      rw [he] at hfilter
      exact nomatch hfilter
    · obtain ⟨e, he⟩ := error_of_failed h
      exact ⟨e, by rw [he]; rfl⟩

section plan

variable {m : NightService} {p : NightPins} {now : ℤ} {auto auto' : Auto} {dark : Bool}

theorem sense_none (hon : p.lightMonitor = true) (h : sense g a p now auto = (auto', none)) :
    auto'.switchError = auto.switchError := by
  unfold sense at h
  simp only [hon, Bool.not_true, Bool.false_eq_true, if_false] at h
  unfold Auto.fail at h
  split_ifs at h
  all_goals
    obtain ⟨rfl, -⟩ := Prod.mk.inj h
    rfl

theorem sense_some (h : sense g a p now auto = (auto', some dark)) :
    p.lightMonitor = true ∧
      ∃ name, auto' = { auto with inputPin := name, error := "", raw := some dark } := by
  cases hon : p.lightMonitor with
  | false => simp [sense, hon] at h
  | true =>
    refine ⟨rfl, ?_⟩
    unfold sense at h
    unfold Auto.fail at h
    dsimp only at h
    split_ifs at h
    all_goals first | exact absurd (Prod.mk.inj h).2 (Option.some_ne_none dark).symm | skip
    obtain ⟨hauto, hdark⟩ := Prod.mk.inj h
    rw [← hauto, hdark]
    exact ⟨_, rfl⟩

/-- A tick that switches nothing keeps the error, unless the sensor tells of another light. -/
theorem plan_none (hon : (m.pins a.sensorGet).lightMonitor = true) (ht : turned g a now m = false)
    (h : plan g a now m = (auto, none)) : auto.switchError = m.auto.switchError := by
  unfold plan at h
  unfold turned at ht
  rcases hsense : sense g a (m.pins a.sensorGet) now m.auto with ⟨auto', _ | dark⟩
  · simp only [hsense] at h
    rw [← (Prod.mk.inj h).1]
    exact sense_none hon hsense
  · obtain ⟨-, name, rfl⟩ := sense_some hsense
    simp only [hsense, Option.any_some, decide_eq_false_iff_not, ne_eq, not_not] at h ht
    unfold due at h
    simp only [ht, if_true] at h
    split_ifs at h
    all_goals
      obtain ⟨rfl, -⟩ := Prod.mk.inj h
      rfl

/-- A switch is for the light the sensor tells of, and one again is for the light the mode was set
for. -/
theorem due_switch {night : Bool} {sw : Switch}
    (h : due p now dark night auto = (auto', some sw)) :
    auto'.error = auto.error ∧ sw.again = decide (auto.committed = some dark) ∧
      (sw.again = true → auto'.switchError = auto.switchError) := by
  unfold due at h
  cases hcommitted : auto.committed with
  | none =>
    simp only [hcommitted] at h
    obtain ⟨rfl, hsw⟩ := Prod.mk.inj h
    rw [← Option.some.inj hsw]
    exact ⟨rfl, rfl, fun _ => rfl⟩
  | some committed =>
    simp only [hcommitted] at h
    by_cases hdark : dark = committed
    · subst hdark
      rw [if_pos rfl] at h
      split_ifs at h
      · exact nomatch (Prod.mk.inj h).2
      · obtain ⟨rfl, hsw⟩ := Prod.mk.inj h
        rw [← Option.some.inj hsw]
        exact ⟨rfl, (decide_eq_true rfl).symm, fun _ => rfl⟩
      · exact nomatch (Prod.mk.inj h).2
    · rw [if_neg hdark] at h
      have herror : (if auto.candidate = some dark then auto else
          { auto with candidate := some dark, candidateSinceMs := now, switchError := "" }).error =
            auto.error := by
        split_ifs
        · rfl
        · rfl
      have hother : decide (some committed = some dark) = false := by
        simpa using Ne.symm hdark
      rw [← hcommitted] at h
      generalize (if auto.candidate = some dark then auto else
        { auto with candidate := some dark, candidateSinceMs := now, switchError := "" }) = next
          at h herror
      generalize (if dark = true then p.autoNightDelayS else p.autoDayDelayS) = delayS at h
      split at h
      · exact nomatch (Prod.mk.inj h).2
      · obtain ⟨rfl, hsw⟩ := Prod.mk.inj h
        rw [← Option.some.inj hsw]
        exact ⟨herror, hother.symm, nofun⟩

/-- What a switch is found for: the light the sensor tells of, and again where the mode was set for
it before. -/
theorem plan_switch {sw : Switch} (h : plan g a now m = (auto, some sw)) :
    (m.pins a.sensorGet).lightMonitor = true ∧ auto.error = "" ∧ turned g a now m = !sw.again ∧
      (sw.again = true → auto.switchError = m.auto.switchError) := by
  unfold plan at h
  unfold turned
  rcases hsense : sense g a (m.pins a.sensorGet) now m.auto with ⟨auto', _ | dark⟩
  · simp only [hsense] at h
    exact nomatch (Prod.mk.inj h).2
  · obtain ⟨hon, name, rfl⟩ := sense_some hsense
    simp only [hsense] at h
    obtain ⟨herror, hagain, hswitch⟩ := due_switch h
    refine ⟨hon, herror, ?_, hswitch⟩
    rw [hagain]
    simp

end plan

variable {get : String → Text} {w : Watch P} {i : ℤ × Answers} {m : NightService} {auto : Auto}

/-- There is an error for an actuator that follows the mode of an automation that is on. -/
structure Owed (get : String → Text) (m : NightService) (follows : NightPins → Bool) : Prop where
  on : (m.pins get).lightMonitor = true
  follows : follows (m.pins get) = true
  error : m.auto.switchError ≠ ""

structure Watch.Shown (get : String → Text) (w : Watch P) : Prop where
  ircut : w.ircutFailed = true → Owed get w.s.m NightPins.ircutFollows
  light : w.lightFailed = true → Owed get w.s.m NightPins.lightFollows

theorem Watch.Shown.visible (h : w.Shown get) : w.Visible get := by
  intro hfailed
  unfold NightService.autoState
  dsimp only
  split
  · assumption
  · exact hfailed.elim (fun hf => (h.ircut hf).error) fun hf => (h.light hf).error

theorem mode_of_override (h : (a.mode on).isOk = false) : on = true ∧ a.override.isOk = false := by
  unfold Answers.mode at h
  split at h
  · rename_i hoverride
    exact ⟨rfl, by rw [hoverride]; rfl⟩
  · exact absurd h Bool.false_ne_true.symm

theorem failedBy_cases {before : Bool} {r : Option (Except String Unit)}
    (h : failedBy before r = true) :
    failedBy false r = true ∨ r.isSome = false ∧ before = true := by
  cases r with
  | none => exact .inr ⟨rfl, h⟩
  | some r => exact .inl h

/-- Without a switch a failure is still owed, or the sensor tells of another light. -/
theorem Owed.of_none {failed : Bool} {follows : NightPins → Bool}
    (h : failed = true → Owed get m follows)
    (hplan : plan g (i.2.settled get) i.1 m = (auto, none))
    (hf : (failed && !turned g (i.2.settled get) i.1 m) = true) :
    Owed get { m with auto := auto } follows := by
  rw [Bool.and_eq_true, Bool.not_eq_true'] at hf
  obtain ⟨hon, hfollows, herror⟩ := h hf.1
  exact ⟨hon, hfollows, (plan_none hon hf.2 hplan).symm ▸ herror⟩

theorem switchError_after (auto : Auto) (dark again : Bool) (e : String) :
    (if again then auto.retried (.error e) else auto.applied dark (.ok ()) (.error e)).switchError =
      e := by
  cases again with
  | true => rfl
  | false => rfl

/-- What a switch drove and did not manage is owed, and so is what it did not get to. -/
theorem Owed.of_switch {failed : Bool} {follows : NightPins → Bool} {sw : Switch}
    {r : Option (Except String Unit)} {m' : NightService}
    (h : failed = true → Owed get m follows)
    (hi : failed = true → sw = ⟨true, true⟩ → i.2.override.isOk = true)
    (hplan : plan g (i.2.settled get) i.1 m = (auto, some sw))
    (hpins : m'.pins = m.pins)
    (hr : r.isSome = (((i.2.settled get).mode sw.dark).isOk && follows (m.pins get)))
    (herror : failedBy false r = true → m'.auto.switchError ≠ "")
    (hf : failedBy (failed && !turned g (i.2.settled get) i.1 m) r = true) :
    Owed get m' follows := by
  obtain ⟨hon, -, hturned, -⟩ := plan_switch hplan
  rcases failedBy_cases hf with hfailed | ⟨hnone, hbefore⟩
  · obtain ⟨e, he⟩ := error_of_failed hfailed
    have hsome : r.isSome = true := by rw [he]; rfl
    rw [hr, Bool.and_eq_true] at hsome
    have hget : m'.pins get = m.pins get := congrFun hpins get
    exact ⟨hget ▸ hon, hget ▸ hsome.2, herror hfailed⟩
  · -- The mode could not be set again at night.
    rw [Bool.and_eq_true, hturned, Bool.not_not] at hbefore
    have howed := h hbefore.1
    rw [hr, howed.follows, Bool.and_true] at hnone
    obtain ⟨hdark, hoverride⟩ := mode_of_override hnone
    have hsw : sw = ⟨true, true⟩ := by
      obtain ⟨dark, again⟩ := sw
      rw [show dark = true from hdark, show again = true from hbefore.2]
    exact absurd (hi hbefore.1 hsw) (by rw [show i.2.override.isOk = false from hoverride]; decide)

/-- After a switch in which an actuator failed there is its error. -/
theorem switchError_of_failed {sw : Switch} {r : Option (Except String Unit)}
    (hr : failedBy false r = true → failedBy false (drives g a sw.dark s).1 = true ∨
      failedBy false (drives g a sw.dark s).2 = true)
    (hf : failedBy false r = true) :
    let out := setNightLocked g a sw.dark s
    (if sw.again then out.2.2.m.auto.retried out.2.1
      else out.2.2.m.auto.applied sw.dark out.1 out.2.1).switchError ≠ "" := by
  obtain ⟨hsound, hmode, hfirst⟩ := sound_setNightLocked (g := g) a sw.dark s
  obtain ⟨e, he⟩ := firstError_of_failed (hr hf)
  have hspeaks := hsound.speaks e (hfirst.trans he)
  dsimp only
  rw [hfirst, he, hmode]
  cases hm : a.mode sw.dark with
  | error em =>
    -- Nothing has been driven then.
    have hnone : drives g a sw.dark s = (none, none) := by
      unfold drives
      rw [hm]
    rw [hnone] at he
    exact nomatch he
  | ok u => exact (switchError_after _ _ _ e).symm ▸ hspeaks

/-- A tick that masks nothing shows what is owed. -/
theorem Watch.Shown.tick (h : w.Shown get) (hi : ¬ w.Masks g get i) :
    (w.tick g get i).Shown get := by
  rcases hplan : plan g (i.2.settled get) i.1 w.s.m with ⟨auto, _ | sw⟩
  · unfold Watch.tick Night.tick
    simp only [hplan]
    exact ⟨Owed.of_none h.ircut hplan, Owed.of_none h.light hplan⟩
  · have hpins : (setNightLocked g (i.2.settled get) sw.dark
        { w.s with m.auto := auto }).2.2.m.pins = w.s.m.pins :=
      (sound_setNightLocked (i.2.settled get) sw.dark { w.s with m.auto := auto }).1.pins
    obtain ⟨hircut, hlight⟩ :=
      drives_isSome (g := g) (i.2.settled get) sw.dark { w.s with m.auto := auto }
    have hretry (hf : w.Failed) (hsw : sw = ⟨true, true⟩) : i.2.override.isOk = true := by
      by_contra hoverride
      exact hi ⟨hf, by simpa using hoverride, by rw [hplan, hsw]⟩
    unfold Watch.tick Night.tick
    simp only [hplan]
    constructor
    · intro hf
      exact Owed.of_switch h.ircut (fun hf => hretry (.inl hf)) hplan hpins hircut
        (switchError_of_failed .inl) hf
    · intro hf
      exact Owed.of_switch h.light (fun hf => hretry (.inr hf)) hplan hpins hlight
        (switchError_of_failed .inr) hf

theorem mode_error_of_override (h : a.override.isOk = false) :
    ∃ e, a.mode true = .error e := by
  unfold Answers.mode
  cases ho : a.override with
  | error e => exact ⟨_, rfl⟩
  | ok u =>
    rw [ho] at h
    exact absurd h Bool.false_ne_true.symm

/-- The early return drives nothing, and is taken for an actuator that has recovered. -/
theorem not_visible_of_masks (hi : w.Masks g get i) : ¬ (w.tick g get i).Visible get := by
  obtain ⟨hfailed, hoverride, hsw⟩ := hi
  rcases hplan : plan g (i.2.settled get) i.1 w.s.m with ⟨auto, sw⟩
  rw [hplan] at hsw
  obtain rfl : sw = some ⟨true, true⟩ := hsw
  obtain ⟨-, herror, hturned, -⟩ := plan_switch hplan
  obtain ⟨e, hmode⟩ := mode_error_of_override (a := i.2.settled get) hoverride
  have hsame : (w.tick g get i).Failed := by
    unfold Watch.Failed at hfailed
    unfold Watch.tick Watch.Failed
    simp only [hplan, drives, hmode, hturned]
    simpa [failedBy] using hfailed
  intro hvisible
  refine hvisible hsame ?_
  unfold Watch.tick Night.tick NightService.autoState setNightLocked
  simp only [hplan, hmode]
  exact if_neg (not_not.mpr herror)

/-- A service whose automation has seen nothing yet. -/
def Watch.start (m : NightService) : Watch P := { s := { m := { m with auto := {} } } }

/-- What an actuator fails at shows after every tick just when no tick tries it again at night with
an image control that fails. -/
theorem visible_run_iff (g : Gpio P) (get : String → Text) (m : NightService)
    (is : List (ℤ × Answers)) :
    Always (Watch.tick g get) (Watch.Visible get) (.start m) is ↔
      Along (Watch.tick g get) (fun w i => ¬ w.Masks g get i) (.start m) is := by
  have hstart : (Watch.start (P := P) m).Shown get :=
    ⟨fun h => absurd h Bool.false_ne_true, fun h => absurd h Bool.false_ne_true⟩
  exact always_iff_along (fun _ _ hw hi => hw.tick hi) (fun _ hw => hw.visible)
    (fun _ _ _ hi => not_visible_of_masks (not_not.mp hi)) hstart

/-- A filter on one pin, a sensor, and an automation that is on. -/
def lit (key : String) : Text :=
  if key = "night.ircut" ∨ key = "night.light_monitor" then "true".toList
  else if key = "night.ircut_pin1" then "PB18".toList
  else if key = "night.light_sensor_pin" then "PB17".toList
  else []

/-- It is dark, the filter's pin refuses, and the image control does as it is told. -/
def stuck (override : Except String Unit) : Answers where
  sensorGet := lit
  level := true
  modeGet := lit
  override := override
  ircut := { get := lit, config1 := .error }
  light := { get := lit }

/-- At nightfall the filter stays where it is, and at the next attempt the image control fails. -/
theorem not_visible_early_return :
    ¬ Watch.Visible lit (run (Watch.tick (BankPinResolver.gpio {}) lit) (.start {})
      [(1000, stuck (.ok ())), (3000, stuck (.error "isp"))]) := by
  decide

end Machino.Night
