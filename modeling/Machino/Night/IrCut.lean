import Mathlib.Logic.Function.Basic
import Machino.Basic.Runs
import Machino.Night.NightService

namespace Machino.Night

open Runs

variable {P : Type}

/-- A call that is none of a pulse's three writes. -/
def Event.Aside : Event P → Prop
  | .call c use _ level _ => use = .pulse → c = .configureOutput ∧ level = false
  | .drove .. => False

theorem aside_hold {c : Call} {pin : P} {level : Bool} {rc : Result} :
    (Event.call c .hold pin level rc).Aside := fun h => absurd h (by simp)

theorem aside_light {c : Call} {pin : P} {level : Bool} {rc : Result} :
    (Event.call c .light pin level rc).Aside := fun h => absurd h (by simp)

theorem aside_low {pin : P} {rc : Result} :
    (Event.call .configureOutput .pulse pin false rc).Aside := fun _ => ⟨rfl, rfl⟩

variable [DecidableEq P]

/-- The pin and the level that a call put there. -/
def Event.put : Event P → Option (P × Bool)
  | .call _ _ pin level rc => if rc.isOk then some (pin, level) else none
  | .drove .. => none

/-- The level last put on the pin. -/
def level (pin : P) : List (Event P) → Option Bool
  | [] => none
  | e :: log =>
    match e.put with
    | some (p, l) => if p = pin then some l else level pin log
    | none => level pin log

/-- The pin is held as a single pin's level. -/
def Event.holds (pin : P) : Event P → Bool
  | .call _ .hold p _ rc => p = pin && rc.isOk
  | _ => false

/-- The pin that was high in a pulse that has just ended, and the one that was low. -/
def pulseOf : List (Event P) → Option (P × P)
  | .call .write .pulse hi false rc3 :: .call .write .pulse hi' true rc2 ::
      .call .write .pulse lo false rc1 :: _ =>
    if hi' = hi ∧ hi ≠ lo ∧ rc1.isOk ∧ rc2.isOk ∧ rc3.isOk then some (hi, lo) else none
  | _ => none

/-- The pin that was high in the latest pulse on the two, neither of them held since. -/
def lastPulse (p q : P) : List (Event P) → Option P
  | [] => none
  | e :: log =>
    if e.holds p || e.holds q then none
    else match pulseOf (e :: log) with
      | some (hi, lo) =>
        if (hi = p ∧ lo = q) ∨ (hi = q ∧ lo = p) then some hi else lastPulse p q log
      | none => lastPulse p q log

/-- What a reported success says of what was done before it. -/
def Kept (engaged : Bool) (log : List (Event P)) : Wired P → Prop
  | .one pin invert => level pin log = some (engaged != invert)
  | .two p q => p ≠ q → lastPulse p q log = some (if engaged then p else q) ∧
      level p log = some false ∧ level q log = some false

def Truthful (log : List (Event P)) : Prop :=
  ∀ engaged w older, .drove engaged w :: older <:+ log → Kept engaged older w

/-- The direction and the pins of the pulse it was remembered at, and how the pins were used
since: held in single-pin mode, or lit as the light. -/
structure Memory (P : Type) where
  direction : Option (Bool × P × P) := none
  held : P → Bool := fun _ => false
  lit : P → Bool := fun _ => false

def Memory.after (r : Memory P) : Event P → Memory P
  | .call _ .hold pin _ rc =>
    if rc.isOk then { r with held := Function.update r.held pin true } else r
  | .call _ .light pin on rc =>
    if rc.isOk then { r with lit := Function.update r.lit pin on } else r
  | .drove engaged (.two p q) =>
    if r.direction.map Prod.fst = some engaged then r else { direction := some (engaged, p, q) }
  | _ => r

def memory : List (Event P) → Memory P
  | [] => {}
  | e :: log => (memory log).after e

section tied

variable (g : Gpio P)

/-- The direction was remembered at a pulse on these pins, and neither is used for anything else
since. -/
def Memory.RestsOn (r : Memory P) (engaged : Bool) (p q : P) : Prop :=
  r.direction = some (engaged, p, q) ∧
    (r.held p = false ∧ r.lit p = false) ∧ (r.held q = false ∧ r.lit q = false)

/-- No write of a pulse fails. -/
def IrcutAnswers.writes (a : IrcutAnswers) : Prop :=
  a.config1.isOk ∧ a.config2.isOk → a.write1.isOk ∧ a.write2.isOk ∧ a.write3.isOk

/-- A coil is either pulsed with writes that all succeed, or left alone because these same pins
were pulsed that way. -/
def TiedCoil (p q : P) (a : IrcutAnswers) (engaged : Bool) (s : State P) : Prop :=
  p ≠ q → if s.m.ircutDriven = some engaged then (memory s.log).RestsOn engaged p q else a.writes

def TiedDrive (a : IrcutAnswers) (engaged : Bool) (s : State P) : Prop :=
  match g.wiring (s.m.pins a.get) a.available with
  | .ok (n1, some n2) => TiedCoil (g.resolve n1) (g.resolve n2) a engaged s
  | _ => True

/-- The mode a request switches to, where it comes to that. -/
def Request.switchesTo (i : Request) (m : NightService) : Option Bool :=
  match i.op with
  | .setNight on => some on
  | .toggleNight => some !m.night
  | .tick now => (plan g i.toAnswers now m).2.map Switch.dark
  | _ => none

/-- Where a request has the filter driven to. -/
def Request.drives (i : Request) (m : NightService) : Option Bool :=
  match i.op, i.switchesTo g m with
  | .toggleIrcut, _ => some !m.ircut
  | _, some on =>
    if (i.toAnswers.mode on).isOk && (m.pins i.modeGet).ircutFollows then some !on else none
  | _, none => none

def Tied (s : State P) (i : Request) : Prop :=
  match i.drives g s.m with
  | some engaged => TiedDrive g i.ircut engaged s
  | none => True

end tied

instance (r : Memory P) (engaged : Bool) (p q : P) : Decidable (r.RestsOn engaged p q) :=
  inferInstanceAs (Decidable (_ ∧ _))

instance (a : IrcutAnswers) : Decidable a.writes := inferInstanceAs (Decidable (_ → _))

instance (p q : P) (a : IrcutAnswers) (engaged : Bool) (s : State P) :
    Decidable (TiedCoil p q a engaged s) :=
  inferInstanceAs (Decidable (p ≠ q → if s.m.ircutDriven = some engaged then
    (memory s.log).RestsOn engaged p q else a.writes))

instance (g : Gpio P) (a : IrcutAnswers) (engaged : Bool) (s : State P) :
    Decidable (TiedDrive g a engaged s) :=
  match h : g.wiring (s.m.pins a.get) a.available with
  | .error _ => .isTrue (by simp [TiedDrive, h])
  | .ok (_, none) => .isTrue (by simp [TiedDrive, h])
  | .ok (n1, some n2) => decidable_of_iff (TiedCoil (g.resolve n1) (g.resolve n2) a engaged s)
      (by simp [TiedDrive, h])

instance (g : Gpio P) (s : State P) (i : Request) : Decidable (Tied g s i) :=
  match h : i.drives g s.m with
  | some engaged => decidable_of_iff (TiedDrive g i.ircut engaged s) (by simp [Tied, h])
  | none => .isTrue (by simp [Tied, h])

structure Inv (driven : Option Bool) (log : List (Event P)) : Prop where
  driven : (memory log).direction.map Prod.fst = driven
  pulsed : ∀ engaged p q, (memory log).direction = some (engaged, p, q) → p ≠ q →
    (memory log).held p = false → (memory log).held q = false →
      lastPulse p q log = some (if engaged then p else q)
  low : ∀ engaged p q, (memory log).direction = some (engaged, p, q) → p ≠ q →
    ∀ pin ∈ [p, q], (memory log).held pin = false → (memory log).lit pin = false →
      level pin log = some false
  truthful : Truthful log

theorem inv_nil : Inv (P := P) none [] where
  driven := rfl
  pulsed _ _ _ h := absurd h (by simp [memory])
  low _ _ _ h := absurd h (by simp [memory])
  truthful _ _ _ h := absurd (List.suffix_nil.mp h) (by simp)

section aside

variable {e : Event P} {log : List (Event P)}

theorem Event.Aside.pulseOf_cons (h : e.Aside) : pulseOf (e :: log) = none := by
  cases e with
  | call c use pin level rc =>
    cases use with
    | pulse =>
      obtain ⟨rfl, -⟩ := h rfl
      rfl
    | hold => cases c <;> rfl
    | light => cases c <;> rfl
  | drove engaged w => exact h.elim

theorem Event.Aside.direction (h : e.Aside) (r : Memory P) :
    (r.after e).direction = r.direction := by
  cases e with
  | call c use pin level rc =>
    cases use with
    | pulse => rfl
    | hold | light =>
      simp only [Memory.after]
      split <;> rfl
  | drove engaged w => exact h.elim

theorem Event.Aside.held (h : e.Aside) (r : Memory P) (pin : P) :
    (r.after e).held pin = false ↔ r.held pin = false ∧ e.holds pin = false := by
  cases e with
  | call c use p level rc =>
    cases use with
    | pulse => simp [Memory.after, Event.holds]
    | hold =>
      by_cases hrc : rc.isOk = true
      · by_cases hp : p = pin
        · simp [Memory.after, Event.holds, hrc, hp]
        · simp [Memory.after, Event.holds, hrc, hp, Function.update_of_ne (Ne.symm hp)]
      · simp [Memory.after, Event.holds, hrc]
    | light =>
      by_cases hrc : rc.isOk = true
      · simp [Memory.after, Event.holds, hrc]
      · simp [Memory.after, Event.holds, hrc]
  | drove engaged w => exact h.elim

/-- A pin that was put low stays low, but where it is held or lit. -/
theorem Event.Aside.level (h : e.Aside) {r : Memory P} {pin : P}
    (hlow : r.held pin = false → r.lit pin = false → level pin log = some false)
    (hheld : (r.after e).held pin = false) (hlit : (r.after e).lit pin = false) :
    level pin (e :: log) = some false := by
  cases e with
  | call c use p l rc =>
    by_cases hrc : rc.isOk = true
    · by_cases hp : p = pin
      · have hl : l = false := by
          -- Aside from a pulse only the end of one is written, and what is high counts as such.
          cases use with
          | pulse => exact (h rfl).2
          | hold => simp [Memory.after, hrc, hp] at hheld
          | light => simpa [Memory.after, hrc, hp] using hlit
        simp [Night.level, Event.put, hrc, hp, hl]
      · have hsame : (r.after (.call c use p l rc)).held pin = r.held pin ∧
            (r.after (.call c use p l rc)).lit pin = r.lit pin := by
          cases use with
          | pulse => exact ⟨rfl, rfl⟩
          | hold | light => simp [Memory.after, hrc, Function.update_of_ne (Ne.symm hp)]
        rw [hsame.1] at hheld
        rw [hsame.2] at hlit
        simp [Night.level, Event.put, hrc, hp, hlow hheld hlit]
    · have hsame : r.after (.call c use p l rc) = r := by cases use <;> simp [Memory.after, hrc]
      -- A call that fails leaves the pin as it was.
      rw [hsame] at hheld hlit
      simp [Night.level, Event.put, hrc, hlow hheld hlit]
  | drove engaged w => exact h.elim

theorem Truthful.call (h : Truthful log) {c : Call} {use : Use} {pin : P} {level : Bool}
    {rc : Result} : Truthful (.call c use pin level rc :: log) := by
  intro engaged w older hold
  rcases List.suffix_cons_iff.mp hold with heq | hsuffix
  · exact absurd (List.cons.inj heq).1 (by simp)
  · exact h engaged w older hsuffix

theorem Truthful.drove (h : Truthful log) {engaged : Bool} {w : Wired P}
    (hk : Kept engaged log w) : Truthful (.drove engaged w :: log) := by
  intro engaged' w' older hold
  rcases List.suffix_cons_iff.mp hold with heq | hsuffix
  · obtain ⟨he, rfl⟩ := List.cons.inj heq
    obtain ⟨rfl, rfl⟩ := Event.drove.inj he
    exact hk
  · exact h engaged' w' older hsuffix

theorem Inv.aside {driven : Option Bool} (h : Inv driven log) (he : e.Aside) :
    Inv driven (e :: log) where
  driven := by rw [memory, he.direction]; exact h.driven
  pulsed engaged p q hdir hne hp hq := by
    rw [memory] at hdir hp hq
    rw [he.direction] at hdir
    rw [he.held] at hp hq
    rw [lastPulse, hp.2, hq.2, he.pulseOf_cons]
    exact h.pulsed engaged p q hdir hne hp.1 hq.1
  low engaged p q hdir hne pin hpin hheld hlit := by
    rw [memory] at hdir hheld hlit
    rw [he.direction] at hdir
    exact he.level (h.low engaged p q hdir hne pin hpin) hheld hlit
  truthful := by
    cases e with
    | call c use pin level rc => exact h.truthful.call
    | drove engaged w => exact he.elim

theorem lastPulse_drove (p q : P) (engaged : Bool) (w : Wired P) :
    lastPulse p q (.drove engaged w :: log) = lastPulse p q log := by
  simp [lastPulse, Event.holds, pulseOf]

/-- A success that leaves the memory as it is. -/
theorem Inv.drove {driven : Option Bool} (h : Inv driven log) {engaged : Bool} {w : Wired P}
    (hmem : memory (.drove engaged w :: log) = memory log) (hk : Kept engaged log w) :
    Inv driven (.drove engaged w :: log) where
  driven := by rw [hmem]; exact h.driven
  pulsed engaged' p q hdir hne hp hq := by
    rw [hmem] at hdir hp hq
    rw [lastPulse_drove]
    exact h.pulsed engaged' p q hdir hne hp hq
  low engaged' p q hdir hne pin hpin hheld hlit := by
    rw [hmem] at hdir hheld hlit
    exact h.low engaged' p q hdir hne pin hpin hheld hlit
  truthful := h.truthful.drove hk

/-- What the coil's pins are like after the three writes of a pulse. -/
theorem kept_pulse {p q : P} {engaged : Bool} {rc1 rc2 rc3 : Result}
    (hw : p ≠ q → rc1.isOk ∧ rc2.isOk ∧ rc3.isOk) :
    Kept engaged (.call .write .pulse (if engaged then p else q) false rc3 ::
      .call .write .pulse (if engaged then p else q) true rc2 ::
      .call .write .pulse (if engaged then q else p) false rc1 :: log) (.two p q) := by
  intro hne
  obtain ⟨h1, h2, h3⟩ := hw hne
  cases engaged with
  | true => simp [lastPulse, Event.holds, pulseOf, level, Event.put, h1, h2, h3, hne, hne.symm]
  | false => simp [lastPulse, Event.holds, pulseOf, level, Event.put, h1, h2, h3, hne, hne.symm]

/-- A pulse is remembered with its pins. -/
theorem inv_pulsed {p q : P} {engaged : Bool}
    (hnew : (memory log).direction.map Prod.fst ≠ some engaged)
    (hk : Kept engaged log (.two p q)) (ht : Truthful log) :
    Inv (some engaged) (.drove engaged (.two p q) :: log) := by
  have hmem : memory (.drove engaged (.two p q) :: log) =
      { direction := some (engaged, p, q) } := by
    rw [memory, Memory.after, if_neg hnew]
  exact {
    driven := by rw [hmem]; rfl
    pulsed := by
      intro engaged' p' q' hdir hne _ _
      rw [hmem] at hdir
      obtain ⟨rfl, rfl, rfl⟩ : engaged = engaged' ∧ p = p' ∧ q = q' := by simpa using hdir
      rw [lastPulse_drove]
      exact (hk hne).1
    low := by
      intro engaged' p' q' hdir hne pin hpin _ _
      rw [hmem] at hdir
      obtain ⟨rfl, rfl, rfl⟩ : engaged = engaged' ∧ p = p' ∧ q = q' := by simpa using hdir
      rw [List.mem_pair] at hpin
      exact hpin.elim (fun heq => heq ▸ (hk hne).2.1) fun heq => heq ▸ (hk hne).2.2
    truthful := ht.drove hk }

end aside

section request

variable {g : Gpio P} {s : State P}

def State.Good (s : State P) : Prop := Inv s.m.ircutDriven s.log

theorem good_hold (h : s.Good) (n1 : Text) (invert engaged : Bool) (a : IrcutAnswers) :
    (hold g n1 invert a engaged s).2.Good := by
  unfold hold
  dsimp only
  split_ifs with hconfig hwrite
  · exact Inv.aside h aside_hold
  · exact (Inv.aside h aside_hold).aside aside_hold
  · refine ((Inv.aside h aside_hold).aside aside_hold).drove rfl ?_
    have hok : a.write1.isOk = true := by simpa using hwrite
    simp [Kept, level, Event.put, hok]

theorem good_pulse (h : s.Good) {n1 n2 : Text} {engaged : Bool} {a : IrcutAnswers}
    (hne : s.m.ircutDriven ≠ some engaged)
    (hok : TiedCoil (g.resolve n1) (g.resolve n2) a engaged s) :
    (pulse g n1 n2 a engaged s).2.Good := by
  unfold pulse
  dsimp only
  generalize hhi : (if engaged then n1 else n2) = hi
  generalize hlo : (if engaged then n2 else n1) = lo
  split_ifs with hconfig1 hconfig2
  · exact Inv.aside h aside_low
  · exact (Inv.aside h aside_low).aside aside_low
  · have hw : g.resolve n1 ≠ g.resolve n2 →
        a.write1.isOk ∧ a.write2.isOk ∧ a.write3.isOk := by
      intro hpins
      have htied := hok hpins
      rw [if_neg hne] at htied
      exact htied ⟨by simpa using hconfig1, by simpa using hconfig2⟩
    have hnew : (memory s.log).direction.map Prod.fst ≠ some engaged := by rw [h.driven]; exact hne
    refine inv_pulsed hnew ?_ h.truthful.call.call.call.call.call
    subst hhi hlo
    rw [apply_ite g.resolve, apply_ite g.resolve]
    exact kept_pulse hw

theorem good_driveIrcut (h : s.Good) {engaged : Bool} {a : IrcutAnswers}
    (hok : TiedDrive g a engaged s) : (driveIrcut g a engaged s).2.Good := by
  unfold TiedDrive at hok
  unfold driveIrcut
  dsimp only
  cases hwiring : g.wiring (s.m.pins a.get) a.available with
  | error e => exact h
  | ok w =>
    obtain ⟨n1, n2⟩ := w
    cases n2 with
    | none => exact good_hold h ..
    | some n2 =>
      rw [hwiring] at hok
      dsimp only at hok ⊢
      -- Driven this way before: nothing is written, and the pins are as they were left.
      split_ifs with hdriven
      · refine Inv.drove h ?_ fun hpins => ?_
        · rw [memory, Memory.after, if_pos (h.driven.trans hdriven)]
        · have htied := hok hpins
          rw [if_pos hdriven] at htied
          obtain ⟨hdir, hp, hq⟩ := htied
          exact ⟨h.pulsed _ _ _ hdir hpins hp.1 hq.1,
            h.low _ _ _ hdir hpins _ (by simp) hp.1 hp.2,
            h.low _ _ _ hdir hpins _ (by simp) hq.1 hq.2⟩
      · exact good_pulse h hdriven hok

theorem good_driveLight (h : s.Good) (a : LightAnswers) (on : Bool) :
    (driveLight g a on s).2.Good := by
  unfold driveLight
  dsimp only
  split_ifs
  · exact h
  · exact h
  · exact h
  · exact h
  · exact Inv.aside h aside_light
  · exact (Inv.aside h aside_light).aside aside_light
  · exact (Inv.aside h aside_light).aside aside_light

theorem good_setNightLocked (h : s.Good) {a : Answers} {on : Bool}
    (hok : (a.mode on).isOk = true → (s.m.pins a.modeGet).ircutFollows = true →
      TiedDrive g a.ircut (!on) s) : (setNightLocked g a on s).2.2.Good := by
  unfold setNightLocked
  cases hmode : a.mode on with
  | error e => exact h
  | ok u =>
    have hfilter : (if (s.m.pins a.modeGet).ircutFollows then
        driveIrcut g a.ircut (!on) { s with m.night := on }
        else (.ok (), { s with m.night := on })).2.Good := by
      split_ifs with hfollows
      · exact good_driveIrcut (s := { s with m.night := on }) h
          (hok (by rw [hmode]; rfl) hfollows)
      · exact h
    dsimp only
    generalize (if (s.m.pins a.modeGet).ircutFollows then
        driveIrcut g a.ircut (!on) { s with m.night := on }
        else (.ok (), { s with m.night := on })) = t at hfilter ⊢
    split_ifs
    · exact good_driveLight hfilter ..
    · exact hfilter

theorem good_tick (h : s.Good) {a : Answers} {now : ℤ}
    (hok : ∀ sw, (plan g a now s.m).2 = some sw → (a.mode sw.dark).isOk = true →
      (s.m.pins a.modeGet).ircutFollows = true → TiedDrive g a.ircut (!sw.dark) s) :
    (tick g a now s).Good := by
  unfold tick
  cases hplan : plan g a now s.m with
  | mk auto sw =>
    cases sw with
    | none => exact h
    | some sw =>
      rw [hplan] at hok
      have hbefore : { s with m.auto := auto }.Good := h
      exact good_setNightLocked hbefore (hok sw rfl)

/-- A request that switches the mode drives the filter where that follows. -/
theorem tied_mode {i : Request} {on : Bool} (hok : Tied g s i)
    (hmode : i.switchesTo g s.m = some on) (hset : (i.toAnswers.mode on).isOk = true)
    (hfollows : (s.m.pins i.modeGet).ircutFollows = true) : TiedDrive g i.ircut (!on) s := by
  have hdrives : i.drives g s.m = some !on := by
    unfold Request.drives
    rw [hmode]
    cases hop : i.op with
    | toggleIrcut => simp [Request.switchesTo, hop] at hmode
    | setNight | toggleNight | toggleLight | tick => simp [hset, hfollows]
  rw [Tied, hdrives] at hok
  exact hok

theorem good_step (h : s.Good) {i : Request} (hok : Tied g s i) : (step g s i).Good := by
  unfold step
  cases hop : i.op with
  | setNight on =>
    exact good_setNightLocked h (tied_mode hok (by rw [Request.switchesTo, hop]))
  | toggleNight =>
    exact good_setNightLocked h (tied_mode hok (by rw [Request.switchesTo, hop]))
  | toggleIrcut =>
    rw [Tied, Request.drives, hop] at hok
    exact good_driveIrcut h hok
  | toggleLight => exact good_driveLight h ..
  | tick now =>
    refine good_tick h fun sw hplan => tied_mode hok ?_
    rw [Request.switchesTo, hop]
    dsimp only
    rw [hplan]
    rfl

end request

/-- The service as it starts, over the board's own pins. -/
def boot (pin1 pin2 sensor : Text) : State P :=
  { m := { defIrcutPin1 := pin1, defIrcutPin2 := pin2, defLightSensorPin := sensor } }

theorem good_boot (pin1 pin2 sensor : Text) : (boot pin1 pin2 sensor : State P).Good := inv_nil

/-- Along every run whose drives of a coil are tied to its pins, what is reported is true. -/
theorem truthful_run (g : Gpio P) (pin1 pin2 sensor : Text) {is : List Request}
    (his : Along (step g) (Tied g) (boot pin1 pin2 sensor) is) :
    Always (step g) (fun s => Truthful s.log) (boot pin1 pin2 sensor) is := by
  have hstep : ∀ s i, State.Good s → Tied g s i → (step g s i).Good :=
    fun _ _ h hok => good_step h hok
  exact (always_of_along hstep (good_boot pin1 pin2 sensor) his).mono fun _ h => Inv.truthful h

/-- A store with two pins for the filter. -/
def wiredTo (pin1 pin2 : String) (key : String) : Text :=
  if key = "night.ircut" then "true".toList
  else if key = "night.ircut_pin1" then pin1.toList
  else if key = "night.ircut_pin2" then pin2.toList
  else []

def requestOf (op : Op) (pin1 pin2 : String) : Request where
  op := op
  sensorGet := wiredTo pin1 pin2
  modeGet := wiredTo pin1 pin2
  ircut := { get := wiredTo pin1 pin2 }
  light := { get := wiredTo pin1 pin2 }

/-- Night, once more, day, and then a single pin in place of the coil. -/
theorem truthful_same_coil :
    Always (step (BankPinResolver.gpio {})) (fun s => Truthful s.log) (boot [] [] [])
      [requestOf (.setNight true) "PD22" "119", requestOf (.setNight true) "PD22" "PD23",
        requestOf .toggleIrcut "PD22" "PD23", requestOf .toggleIrcut "PB18" ""] :=
  truthful_run (BankPinResolver.gpio {}) [] [] [] (by decide)

/-- Another coil is taken for the one that was pulsed. -/
theorem not_truthful_other_coil :
    ¬ Always (step (BankPinResolver.gpio {})) (fun s => Truthful s.log) (boot [] [] [])
      [requestOf (.setNight true) "PD22" "PD23", requestOf (.setNight true) "PC10" "PC11"] := by
  intro h
  have hlast := h _ List.prefix_rfl false (.two (some 74) (some 75)) _ List.suffix_rfl
  exact absurd (hlast (by decide)).1 (by decide)

end Machino.Night
