import Mathlib.Logic.Function.Basic
import Machino.Basic.Runs
import Machino.Core.Result
import Machino.Usb.UsbConfig

namespace Machino.Usb

structure UsbPowerCapability where
  switchable : Bool := false
  defaultPin : Text := []
  defaultActiveHigh : Bool := true
  allowedPins : List Text := []
  deriving DecidableEq

structure UsbCapabilities where
  hostSupported : Bool := false
  power : UsbPowerCapability := {}
  deriving DecidableEq

/-- What is asked of the backend; the board's default is resolved away. -/
structure UsbResolved where
  mode : UsbPowerMode := .none
  pin : Text := []
  activeHigh : Bool := true
  drivesPower : Bool := false
  deriving DecidableEq

def pinIsListed (p : UsbPowerCapability) (pin : Text) : Bool :=
  (pin ≠ [] && pin = p.defaultPin) || pin ∈ p.allowedPins

/-- The mode that is meant; the board's default is one of two. -/
def modeOf (cfg : UsbConfig) (caps : UsbCapabilities) : UsbPowerMode :=
  if cfg.mode = .boardDefault then if caps.power.switchable then .gpio else .alwaysOn else cfg.mode

def resolveGpio (cfg : UsbConfig) (caps : UsbCapabilities) : Except String UsbResolved := do
  ensure caps.power.switchable "this board cannot switch port power from software"
  let pin := if cfg.pin = [] then caps.power.defaultPin else cfg.pin
  ensure (pin ≠ []) "no power pin configured and the board declares no default"
  ensure (cfg.expert || pinIsListed caps.power pin)
    ("pin " ++ String.ofList pin ++ " is not one the board wires for USB power (set expert to " ++
      "override; the rest of the GPIO space belongs to the sensor, the PHY and the flash)")
  return {
    mode := .gpio
    pin := pin
    activeHigh := if cfg.pin = [] then caps.power.defaultActiveHigh else cfg.activeHigh
    drivesPower := true }

def resolve (cfg : UsbConfig) (caps : UsbCapabilities) : Except String UsbResolved :=
  if !caps.hostSupported then
    if cfg.enabled then .error "this board has no USB host" else .ok { mode := .none }
  else
    match modeOf cfg caps with
    | .none => .ok { mode := .none }
    | .alwaysOn =>
      if caps.power.switchable && cfg.mode = .alwaysOn then
        .error "this board switches port power; always-on would leave it off"
      else .ok { mode := .alwaysOn }
    | .gpio => resolveGpio cfg caps
    | .boardDefault => .error "unsupported power mode"

/-- What the backend remembers of the pin it drives, which is empty for none. -/
structure Driven where
  pin : Text := []
  activeHigh : Bool := true
  on : Bool := false
  known : Bool := false
  deriving DecidableEq

/-- A call to the GPIO controller, with how it went where that is told. -/
inductive GpioCall where
  | configureOutput (pin : Text) (level : Bool) (rc : Result)
  | write (pin : Text) (level : Bool) (rc : Result)
  | release (pin : Text)
  deriving DecidableEq

/-- `set_power`, with `rc` what its one call answers that can fail: the result, what is remembered
afterwards, and the calls made. -/
def setPower (switchable : Bool) (d : Driven) (mode : UsbPowerMode) (pin : Text)
    (activeHigh on : Bool) (rc : Result) : Result × Driven × List GpioCall :=
  if mode ≠ .gpio then
    -- Whether the pin could be de-asserted is not looked at.
    (.ok, { pin := [], activeHigh := d.activeHigh, on := false, known := false },
      if d.pin = [] then [] else [.write d.pin (!d.activeHigh) rc, .release d.pin])
  else if !switchable then (.unsupported, d, [])
  else if pin = [] then (.error, d, [])
  else
    let level := if activeHigh then on else !on
    let calls := if d.pin = pin then [.write pin level rc]
      else (if d.pin = [] then [] else [.release d.pin]) ++ [.configureOutput pin level rc]
    if rc.isOk then (.ok, { pin, activeHigh, on, known := true }, calls) else (rc, d, calls)

structure UsbHostService where
  cfg : UsbConfig := {}
  resolved : UsbResolved := {}
  deriving DecidableEq

/-- `apply`: the result, the service and the backend afterwards, and the calls made. -/
def apply (board : UsbPowerCapability) (hostSupported : Bool) (rc : Result) (cfg : UsbConfig)
    (m : UsbHostService) (d : Driven) : Result × UsbHostService × Driven × List GpioCall :=
  match resolve cfg { hostSupported, power := board } with
  | .error _ => (.error, m, d, [])
  | .ok r =>
    if hostSupported then
      let (res, d, calls) := setPower board.switchable d r.mode r.pin r.activeHigh cfg.enabled rc
      (res, if res.isOk then { cfg, resolved := r } else m, d, calls)
    else (.ok, { cfg, resolved := r }, d, [])

/-- Power is driven in one mode, and then over a pin of a board that can switch it. -/
theorem resolve_ok {cfg : UsbConfig} {caps : UsbCapabilities} {r : UsbResolved}
    (h : resolve cfg caps = .ok r) : (r.mode ≠ .gpio ∧ r.drivesPower = false) ∨
      (r.mode = .gpio ∧ caps.hostSupported = true ∧ caps.power.switchable = true ∧ r.pin ≠ [] ∧
        r.drivesPower = true) := by
  unfold resolve at h
  by_cases hhost : caps.hostSupported = true
  · rw [if_neg (by simp [hhost])] at h
    cases hmode : modeOf cfg caps with
    | none =>
      rw [hmode] at h
      obtain rfl := Except.ok.inj h
      exact .inl ⟨by simp, rfl⟩
    | alwaysOn =>
      rw [hmode] at h
      dsimp only at h
      split_ifs at h
      obtain rfl := Except.ok.inj h
      exact .inl ⟨by simp, rfl⟩
    | gpio =>
      rw [hmode] at h
      unfold resolveGpio at h
      simp only [except_bind_eq_ok, ensure_eq_ok] at h
      obtain ⟨-, hswitch, -, hpin, -, -, heq⟩ := h
      obtain rfl := Except.ok.inj heq
      exact .inr ⟨rfl, hhost, hswitch, of_decide_eq_true hpin, rfl⟩
    | boardDefault =>
      rw [hmode] at h
      exact absurd h (by simp)
  · rw [if_pos (by simp [hhost])] at h
    split_ifs at h
    obtain rfl := Except.ok.inj h
    exact .inl ⟨by simp, rfl⟩

open Runs

/-- What is known of each pin: the level written last, which stays when the pin is released, the
polarity it was last driven with, and whether it was ever released at a level that powers. -/
structure Pins where
  level : Text → Option Bool := fun _ => none
  polarity : Text → Option Bool := fun _ => none
  early : Text → Bool := fun _ => false

def Pins.call (w : Pins) : GpioCall → Pins
  | .configureOutput pin level rc | .write pin level rc =>
    if rc.isOk then { w with level := Function.update w.level pin (some level) } else w
  | .release pin =>
    let off := w.level pin = (w.polarity pin).map (!·)
    { w with early := Function.update w.early pin (w.early pin || !decide off) }

/-- The pin that is driven counts with the polarity it is driven with. -/
def Pins.driven (w : Pins) (d : Driven) : Pins :=
  if d.pin = [] then w
  else { w with polarity := Function.update w.polarity d.pin (some d.activeHigh) }

structure PowerState where
  m : UsbHostService := {}
  d : Driven := {}
  pins : Pins := {}
  last : Result := .ok

/-- A configuration, whether there is a host then, and how the call to the GPIO goes. -/
structure PowerRequest where
  cfg : UsbConfig
  hostSupported : Bool := true
  rc : Result := .ok
  deriving DecidableEq

def step (board : UsbPowerCapability) (s : PowerState) (i : PowerRequest) : PowerState :=
  let (res, m, d, calls) := apply board i.hostSupported i.rc i.cfg s.m s.d
  { m, d, pins := (calls.foldl Pins.call s.pins).driven d, last := res }

/-- The stored configuration drives this pin. -/
def PowerState.Names (s : PowerState) (pin : Text) : Prop :=
  s.m.resolved.drivesPower = true ∧ s.m.resolved.pin = pin

/-- The pin was left at the level that does not power, and was never released at the other. -/
def Pins.Left (w : Pins) (pin : Text) : Prop :=
  ∀ activeHigh, w.polarity pin = some activeHigh →
    w.level pin = some (!activeHigh) ∧ w.early pin = false

/-- However the last call went, all pins but the named one are left, and the named one has the level
its configuration asks for. -/
structure HandedOver (s : PowerState) : Prop where
  left : ∀ pin, ¬ s.Names pin → s.pins.Left pin
  asked : s.m.resolved.drivesPower = true → s.pins.level s.m.resolved.pin =
    some (if s.m.resolved.activeHigh then s.m.cfg.enabled else !s.m.cfg.enabled)

/-- A pin driven on is taken away only by a mode that drives none, with a write that succeeds. -/
def Orderly (board : UsbPowerCapability) (s : PowerState) (i : PowerRequest) : Prop :=
  match resolve i.cfg { hostSupported := i.hostSupported, power := board } with
  | .error _ => True
  | .ok r => s.d.pin = [] ∨ s.d.on = false ∨ (r.mode = .gpio ∧ r.pin = s.d.pin) ∨
      (r.mode ≠ .gpio ∧ i.hostSupported = true ∧ i.rc.isOk = true)

instance (board : UsbPowerCapability) (s : PowerState) (i : PowerRequest) :
    Decidable (Orderly board s i) :=
  match h : resolve i.cfg { hostSupported := i.hostSupported, power := board } with
  | .error _ => .isTrue (by simp [Orderly, h])
  | .ok r => decidable_of_iff (s.d.pin = [] ∨ s.d.on = false ∨ (r.mode = .gpio ∧ r.pin = s.d.pin) ∨
      (r.mode ≠ .gpio ∧ i.hostSupported = true ∧ i.rc.isOk = true)) (by simp [Orderly, h])

/-- The level of the pin that is driven. -/
def Driven.level (d : Driven) : Bool := if d.activeHigh then d.on else !d.on

structure Inv (s : PowerState) : Prop where
  driven : s.d.pin ≠ [] →
    s.pins.level s.d.pin = some s.d.level ∧ s.pins.polarity s.d.pin = some s.d.activeHigh
  left : ∀ pin, pin = [] ∨ pin ≠ s.d.pin → s.pins.Left pin
  early : ∀ pin, s.pins.early pin = false
  named : s.m.resolved.drivesPower = true → s.d.pin ≠ [] ∧ s.d.pin = s.m.resolved.pin ∧
    s.d.activeHigh = s.m.resolved.activeHigh ∧ s.d.on = s.m.cfg.enabled
  off : s.m.resolved.drivesPower = false → s.d.on = false

theorem inv_init : Inv {} where
  driven h := absurd rfl h
  left pin _ ah h := absurd h (by simp)
  early _ := rfl
  named h := absurd h (by simp)
  off _ := rfl

theorem Driven.level_off {d : Driven} (h : d.on = false) : d.level = !d.activeHigh := by
  unfold Driven.level
  cases d.activeHigh with
  | true => simp [h]
  | false => simp [h]

/-- A pin driven off has the level of a pin that was left. -/
theorem Inv.driven_left {s : PowerState} (h : Inv s) (hoff : s.d.pin = [] ∨ s.d.on = false)
    (pin : Text) : s.pins.Left pin := by
  by_cases hpin : pin = [] ∨ pin ≠ s.d.pin
  · exact h.left pin hpin
  · rw [not_or, not_not] at hpin
    obtain ⟨hne, rfl⟩ := hpin
    obtain ⟨hlevel, hpolarity⟩ := h.driven hne
    intro ah hah
    obtain rfl := Option.some.inj (hpolarity.symm.trans hah)
    exact ⟨hlevel.trans (congrArg some (Driven.level_off (hoff.resolve_left hne))), h.early _⟩

theorem Inv.handedOver {s : PowerState} (h : Inv s) : HandedOver s where
  left pin hpin := by
    cases hpower : s.m.resolved.drivesPower with
    | false => exact h.driven_left (.inr (h.off hpower)) pin
    | true =>
      refine h.left pin (.inr fun heq => hpin ⟨hpower, ?_⟩)
      rw [heq]
      exact (h.named hpower).2.1.symm
  asked hpower := by
    obtain ⟨hne, hpin, hhigh, hon⟩ := h.named hpower
    rw [← hpin, ← hhigh, ← hon]
    exact (h.driven hne).1

/-- Where nothing is driven nothing is on. -/
theorem Inv.off_of_free {s : PowerState} (h : Inv s) (hoff : s.d.pin = [] ∨ s.d.on = false) :
    s.d.on = false := by
  refine hoff.elim (fun hpin => h.off ?_) id
  by_contra hpower
  exact (h.named (by simpa using hpower)).1 hpin

theorem driven_self {w : Pins} {d : Driven}
    (h : d.pin ≠ [] → w.polarity d.pin = some d.activeHigh) : w.driven d = w := by
  unfold Pins.driven
  split_ifs with hpin
  · rfl
  · rw [← h hpin, Function.update_eq_self]

theorem call_release {w : Pins} {pin : Text} (h : w.level pin = (w.polarity pin).map (!·)) :
    w.call (.release pin) = w := by
  dsimp only [Pins.call]
  rw [decide_eq_true h, Bool.not_true, Bool.or_false, Function.update_eq_self]

theorem call_failed {w : Pins} {pin : Text} {level : Bool} {rc : Result} (h : rc.isOk = false) :
    w.call (.write pin level rc) = w ∧ w.call (.configureOutput pin level rc) = w := by
  simp [Pins.call, h]

theorem call_done {w : Pins} {pin : Text} {level : Bool} {rc : Result} (h : rc.isOk = true) :
    w.call (.write pin level rc) = { w with level := Function.update w.level pin (some level) } ∧
      w.call (.configureOutput pin level rc) =
        { w with level := Function.update w.level pin (some level) } := by
  simp [Pins.call, h]

/-- A pin driven off may be released. -/
theorem release_old {s : PowerState} (h : Inv s) (hoff : s.d.pin = [] ∨ s.d.on = false) :
    (if s.d.pin = [] then [] else [GpioCall.release s.d.pin]).foldl Pins.call s.pins = s.pins := by
  split_ifs with hpin
  · rfl
  · obtain ⟨hlevel, hpolarity⟩ := h.driven hpin
    rw [List.foldl_cons, List.foldl_nil, call_release]
    rw [hlevel, hpolarity, Driven.level_off (hoff.resolve_left hpin)]
    rfl

/-- Nothing changes but the result. -/
theorem Inv.refused {s : PowerState} (h : Inv s) (res : Result) : Inv { s with last := res } where
  driven := h.driven
  left := h.left
  early := h.early
  named := h.named
  off := h.off

/-- What is remembered of a pin that is driven as asked for. -/
def UsbResolved.driven (r : UsbResolved) (on : Bool) : Driven :=
  { pin := r.pin, activeHigh := r.activeHigh, on, known := true }

/-- The pin is driven as asked for, and all others are left. -/
theorem inv_of_driven {w : Pins} {cfg : UsbConfig} {r : UsbResolved} (hpin : r.pin ≠ [])
    (hleft : ∀ pin, pin = [] ∨ pin ≠ r.pin → w.Left pin) (hearly : ∀ pin, w.early pin = false)
    (hpower : r.drivesPower = true) {level : Bool} (hlevel : level = (r.driven cfg.enabled).level)
    (res : Result) :
    Inv {
      m := { cfg, resolved := r }
      d := r.driven cfg.enabled
      pins := ({ w with level := Function.update w.level r.pin (some level) }).driven
        (r.driven cfg.enabled)
      last := res } := by
  unfold Pins.driven
  rw [if_neg (show (r.driven cfg.enabled).pin ≠ [] from hpin)]
  exact {
    driven := fun _ => ⟨(Function.update_self ..).trans (congrArg some hlevel),
      Function.update_self ..⟩
    left := fun pin hne => by
      have hother : pin ≠ r.pin := hne.elim (fun h heq => hpin (heq.symm.trans h)) id
      intro ah hah
      have hold : w.polarity pin = some ah := (Function.update_of_ne hother ..).symm.trans hah
      exact ⟨(Function.update_of_ne hother ..).trans (hleft pin hne ah hold).1, hearly pin⟩
    early := hearly
    named := fun _ => ⟨hpin, rfl, rfl, rfl⟩
    off := fun h => absurd (hpower.symm.trans h) (by simp) }

/-- A pin is de-asserted and released: it is left if that succeeds or it was off already. -/
theorem dropped_left {s : PowerState} (h : Inv s) (hpin : s.d.pin ≠ []) {rc : Result}
    (hok : s.d.on = false ∨ rc.isOk = true) :
    let w := [GpioCall.write s.d.pin (!s.d.activeHigh) rc, .release s.d.pin].foldl Pins.call s.pins
    (∀ pin, w.Left pin) ∧ ∀ pin, w.early pin = false := by
  obtain ⟨hlevel, hpolarity⟩ := h.driven hpin
  obtain ⟨hown, hother, hsame, hearly⟩ : let w := s.pins.call (.write s.d.pin (!s.d.activeHigh) rc)
      w.level s.d.pin = some (!s.d.activeHigh) ∧ (∀ pin ≠ s.d.pin, w.level pin = s.pins.level pin) ∧
        w.polarity = s.pins.polarity ∧ w.early = s.pins.early := by
    -- A failed write is no loss where the pin is off already.
    cases hrc : rc.isOk with
    | true =>
      rw [(call_done hrc).1]
      exact ⟨Function.update_self .., fun pin hne => Function.update_of_ne hne .., rfl, rfl⟩
    | false =>
      rw [(call_failed hrc).1]
      have hoff := Driven.level_off (hok.resolve_right (by simp [hrc]))
      exact ⟨hlevel.trans (congrArg some hoff), fun pin _ => rfl, rfl, rfl⟩
  rw [List.foldl_cons, List.foldl_cons, List.foldl_nil]
  generalize s.pins.call (.write s.d.pin (!s.d.activeHigh) rc) = w at *
  have hrelease : w.level s.d.pin = (w.polarity s.d.pin).map (!·) := by
    rw [hown, hsame, hpolarity]
    rfl
  rw [call_release hrelease]
  refine ⟨fun pin ah hah => ⟨?_, by rw [hearly]; exact h.early pin⟩, fun pin => by
    rw [hearly]; exact h.early pin⟩
  rw [hsame] at hah
  by_cases heq : pin = s.d.pin
  · subst heq
    obtain rfl := Option.some.inj (hpolarity.symm.trans hah)
    exact hown
  · exact (hother pin heq).trans (h.left pin (.inr heq) ah hah).1

/-- Nothing is driven any more. -/
theorem inv_of_stopped {s : PowerState} (h : Inv s) {cfg : UsbConfig} {r : UsbResolved}
    (hpower : r.drivesPower = false) {rc : Result}
    (hok : s.d.pin = [] ∨ s.d.on = false ∨ rc.isOk = true) (res : Result) (known : Bool) :
    Inv {
      m := { cfg, resolved := r }
      d := { pin := [], activeHigh := s.d.activeHigh, on := false, known }
      pins := (if s.d.pin = [] then [] else
        [GpioCall.write s.d.pin (!s.d.activeHigh) rc, .release s.d.pin]).foldl Pins.call s.pins
      last := res } := by
  obtain ⟨hleft, hearly⟩ : let w := (if s.d.pin = [] then [] else
      [GpioCall.write s.d.pin (!s.d.activeHigh) rc, .release s.d.pin]).foldl Pins.call s.pins
      (∀ pin, w.Left pin) ∧ ∀ pin, w.early pin = false := by
    split_ifs with hpin
    · exact ⟨h.driven_left (.inl hpin), h.early⟩
    · exact dropped_left h hpin (hok.resolve_left hpin)
  exact {
    driven := fun hne => absurd rfl hne
    left := fun pin _ => hleft pin
    early := hearly
    named := fun hdrives => absurd (hpower.symm.trans hdrives) (by simp)
    off := fun _ => rfl }

/-- A call that drives a pin: what is taken away for it was off. -/
theorem inv_of_gpio {s : PowerState} (h : Inv s) (cfg : UsbConfig) {r : UsbResolved} (rc : Result)
    (hpin : r.pin ≠ []) (hpower : r.drivesPower = true)
    (hok : s.d.pin = [] ∨ s.d.on = false ∨ r.pin = s.d.pin) :
    let calls := if s.d.pin = r.pin then
        [GpioCall.write r.pin (if r.activeHigh then cfg.enabled else !cfg.enabled) rc]
      else (if s.d.pin = [] then [] else [.release s.d.pin]) ++
        [.configureOutput r.pin (if r.activeHigh then cfg.enabled else !cfg.enabled) rc]
    (rc.isOk = true → ∀ res, Inv {
      m := { cfg, resolved := r }
      d := r.driven cfg.enabled
      pins := (calls.foldl Pins.call s.pins).driven (r.driven cfg.enabled)
      last := res }) ∧
    (rc.isOk = false → calls.foldl Pins.call s.pins = s.pins) := by
  dsimp only
  by_cases hsame : s.d.pin = r.pin
  · rw [if_pos hsame, List.foldl_cons, List.foldl_nil]
    refine ⟨fun hrc res => ?_, fun hrc => (call_failed hrc).1⟩
    rw [(call_done hrc).1]
    exact inv_of_driven hpin (fun pin hne => h.left pin (hsame ▸ hne)) h.early hpower rfl res
  · have hoff : s.d.pin = [] ∨ s.d.on = false :=
      hok.imp_right fun hoff => hoff.resolve_right fun heq => hsame heq.symm
    rw [if_neg hsame, List.foldl_append, release_old h hoff, List.foldl_cons, List.foldl_nil]
    refine ⟨fun hrc res => ?_, fun hrc => (call_failed hrc).2⟩
    rw [(call_done hrc).2]
    exact inv_of_driven hpin (fun pin _ => h.driven_left hoff pin) h.early hpower rfl res

theorem inv_step {board : UsbPowerCapability} {s : PowerState} {i : PowerRequest} (h : Inv s)
    (hok : Orderly board s i) : Inv (step board s i) := by
  have hself : s.pins.driven s.d = s.pins := driven_self fun hpin => (h.driven hpin).2
  unfold Orderly at hok
  unfold step apply
  cases hres : resolve i.cfg { hostSupported := i.hostSupported, power := board } with
  | error e =>
    dsimp only
    rw [List.foldl_nil, hself]
    exact h.refused _
  | ok r =>
    rw [hres] at hok
    dsimp only at hok ⊢
    rcases resolve_ok hres with ⟨hmode, hpower⟩ | ⟨hmode, hhost, hswitch, hpin, hpower⟩
    -- Without a pin of its own the new setting has to get the old one off.
    · have htaken : s.d.pin = [] ∨ s.d.on = false ∨ i.hostSupported = true ∧ i.rc.isOk = true := by
        rcases hok with hok | hok | hok | hok
        · exact .inl hok
        · exact .inr (.inl hok)
        · exact absurd hok.1 hmode
        · exact .inr (.inr hok.2)
      cases hhost : i.hostSupported with
      | false =>
        simp only [Bool.false_eq_true, if_false, List.foldl_nil]
        rw [hself]
        have hoff := h.off_of_free (htaken.imp_right fun hoff =>
          hoff.resolve_right fun hsup => absurd (hhost.symm.trans hsup.1) (by simp))
        exact { h with
          named := fun hdrives => absurd (hpower.symm.trans hdrives) (by simp)
          off := fun _ => hoff }
      | true =>
        rw [setPower, if_pos hmode]
        exact inv_of_stopped h hpower (htaken.imp_right (Or.imp_right And.right)) _ _
    -- With one, a pin that is on has to stay the same.
    · have htaken : s.d.pin = [] ∨ s.d.on = false ∨ r.pin = s.d.pin := by
        rcases hok with hok | hok | hok | hok
        · exact .inl hok
        · exact .inr (.inl hok)
        · exact .inr (.inr hok.2)
        · exact absurd hmode hok.1
      obtain ⟨hdone, hfailed⟩ := inv_of_gpio h i.cfg i.rc hpin hpower htaken
      have hsupported : i.hostSupported = true := hhost
      rw [if_pos hsupported, setPower, if_neg (not_not.mpr hmode), if_neg (by simpa using hswitch),
        if_neg hpin]
      cases hrc : i.rc.isOk with
      | true =>
        simp only [if_true]
        exact hdone hrc _
      | false =>
        simp only [Bool.false_eq_true, if_false, hrc]
        rw [hfailed hrc, hself]
        exact h.refused _

/-- Along every run of orderly calls the pins are handed over cleanly. -/
theorem handedOver_run (board : UsbPowerCapability) {is : List PowerRequest}
    (his : Along (step board) (Orderly board) {} is) : Always (step board) HandedOver {} is :=
  (always_of_along (fun _ _ => inv_step) inv_init his).mono fun _ => Inv.handedOver

/-- A board with two pins for the port's power. -/
def twoPins : UsbPowerCapability :=
  { switchable := true, defaultPin := "PB18".toList, allowedPins := ["PB19".toList] }

def powerOn (pin : String) : PowerRequest :=
  { cfg := { enabled := true, mode := .gpio, pin := pin.toList } }

def powerOff (pin : String) : PowerRequest :=
  { cfg := { enabled := false, mode := .gpio, pin := pin.toList } }

/-- Off, over to the other pin, and on there; then no pin at all. -/
theorem handedOver_switched_off : Always (step twoPins) HandedOver {}
    [powerOn "PB18", powerOff "PB18", powerOff "PB19", powerOn "PB19",
      { cfg := { mode := .none } }] :=
  handedOver_run twoPins (by decide)

/-- The pin in use is changed: the old one goes on powering the port. -/
theorem not_handedOver_changed :
    ¬ Always (step twoPins) HandedOver {} [powerOn "PB18", powerOn "PB19"] := by
  intro h
  have hlast := (h _ List.prefix_rfl).left "PB18".toList
    (fun hnames => absurd hnames.2 (by decide)) true (by decide)
  exact absurd hlast.1 (by decide)

end Machino.Usb
