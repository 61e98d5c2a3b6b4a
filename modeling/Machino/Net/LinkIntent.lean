import Machino.Basic.Runs
import Machino.Cellular.CellularConfig

namespace Machino.Net

open Runs Cellular

/-- Where a tick of the uplink is: behind its copy, behind the call of the link that has to be
written back, before the scan takes or returns the link, before what a SIM action has changed, or
before its end. -/
inductive Driving where
  | idle
  | copied (cfg : CellularConfig) (cfgChanged intentChanged wantUp : Bool)
  | driven (cfg : CellularConfig) (wantUp : Bool)
  | kept (cfg : CellularConfig) (wantUp : Bool)
  | held (quiet : Bool)
  deriving DecidableEq

/-- The intent of the uplink and what its ticks make of it. Beside it stand the calls the link has
received, the newest first, the intent of the last accepted call, whether the tick began after it,
and whether a whole tick without a scan has run since. -/
structure LinkIntent where
  cfg : CellularConfig := {}
  cfgDirty : Bool := true
  wantUp : Bool := false
  intentDirty : Bool := false
  scanHeldLink : Bool := false
  ticking : Driving := .idle
  link : List Bool := []
  last : Option Bool := none
  since : Bool := false
  settled : Bool := false

/-- The calls from any thread, and the parts of a tick: its copy, what it has the link do, what it
writes back, the scan, a new PIN, and its end. -/
inductive IntentEvent where
  | setConfig (cfg : CellularConfig)
  | connect
  | disconnect
  | copy
  | drive
  | keep
  | scan (scanning : Bool)
  | pin (new : Text)
  | publish

namespace LinkIntent

def setConfig (cfg : CellularConfig) (s : LinkIntent) : LinkIntent :=
  { s with
    cfg := cfg, cfgDirty := true, last := some cfg.enabled, since := false, settled := false }

/-- Refused while cellular is switched off. -/
def connect (s : LinkIntent) : LinkIntent :=
  if !s.cfg.enabled then s
  else
    { s with
      wantUp := true, intentDirty := true, last := some true, since := false, settled := false }

def disconnect (s : LinkIntent) : LinkIntent :=
  { s with
    wantUp := false, intentDirty := true, last := some false, since := false, settled := false }

def copy (s : LinkIntent) : LinkIntent :=
  match s.ticking with
  | .idle => { s with
      cfgDirty := false
      intentDirty := false
      ticking := .copied s.cfg s.cfgDirty s.intentDirty s.wantUp
      since := true
      settled := false }
  | _ => s

/-- A changed configuration is an intent of its own. -/
def drive (s : LinkIntent) : LinkIntent :=
  match s.ticking with
  | .copied cfg cfgChanged intentChanged wantUp =>
    let wantUp := if cfgChanged then cfg.enabled else wantUp
    if cfgChanged || intentChanged then
      { s with link := wantUp :: s.link, ticking := .driven cfg wantUp }
    else { s with ticking := .kept cfg wantUp }
  | _ => s

def keep (s : LinkIntent) : LinkIntent :=
  match s.ticking with
  | .driven cfg wantUp => { s with wantUp := wantUp, ticking := .kept cfg wantUp }
  | _ => s

/-- The scan takes the link down while it runs and up again afterwards, if it is wanted. -/
def scan (scanning : Bool) (s : LinkIntent) : LinkIntent :=
  match s.ticking with
  | .kept cfg wantUp =>
    if !cfg.enabled then { s with scanHeldLink := false, ticking := .held true }
    else if scanning && !s.scanHeldLink then
      { s with link := false :: s.link, scanHeldLink := true, ticking := .held false }
    else if !scanning && s.scanHeldLink then
      { s with
        link := if wantUp then true :: s.link else s.link
        scanHeldLink := false
        ticking := .held true }
    else { s with ticking := .held (!scanning) }
  | _ => s

def pin (new : Text) (s : LinkIntent) : LinkIntent :=
  match s.ticking with
  | .held _ => { s with cfg.simPin := new }
  | _ => s

def publish (s : LinkIntent) : LinkIntent :=
  match s.ticking with
  | .held quiet => { s with ticking := .idle, settled := quiet && s.since }
  | _ => s

def step (s : LinkIntent) : IntentEvent → LinkIntent
  | .setConfig cfg => s.setConfig cfg
  | .connect => s.connect
  | .disconnect => s.disconnect
  | .copy => s.copy
  | .drive => s.drive
  | .keep => s.keep
  | .scan scanning => s.scan scanning
  | .pin new => s.pin new
  | .publish => s.publish

/-- Once the last call is followed by a whole tick without a scan, the link was last told what that
call wants. -/
def KeepsIntent (s : LinkIntent) : Prop :=
  s.settled = true → ∀ i, s.last = some i → s.link.head? = some i

/-- A tick that writes its intent back does not find another one that came since its copy, unless
a newer configuration stands for it, and no link is given up before a tick has taken up the
configuration that switches it on. -/
def InStep (s : LinkIntent) : IntentEvent → Prop
  | .disconnect => s.cfgDirty = true → s.cfg.enabled = false
  | .keep =>
    match s.ticking with
    | .driven _ wantUp => s.intentDirty = true → s.cfgDirty = false → s.wantUp = wantUp
    | _ => True
  | _ => True

/-- What the next tick would take up. -/
def next (s : LinkIntent) : Bool := if s.cfgDirty then s.cfg.enabled else s.wantUp

def dirty (s : LinkIntent) : Bool := s.cfgDirty || s.intentDirty

/-- The link was last told so, or a scan has it that will return it so. -/
def Linked (s : LinkIntent) (i : Bool) : Prop :=
  s.link.head? = some i ∨ s.scanHeldLink = true ∧ i = true

/-- How far a tick that has seen the intent has come with it. -/
def Underway (s : LinkIntent) (i : Bool) : Prop :=
  match s.ticking with
  | .idle => s.wantUp = i ∧ s.Linked i
  | .copied cfg cfgChanged intentChanged wantUp =>
    cfg = s.cfg ∧ (if cfgChanged then cfg.enabled else wantUp) = i ∧
      (cfgChanged = false → intentChanged = false → s.wantUp = i ∧ s.Linked i)
  | .driven cfg wantUp => cfg = s.cfg ∧ wantUp = i ∧ s.link.head? = some i
  | .kept cfg wantUp => cfg = s.cfg ∧ wantUp = i ∧ s.wantUp = i ∧ s.Linked i
  | .held quiet => s.wantUp = i ∧ s.Linked i ∧ (quiet = true → s.link.head? = some i)

/-- The last intent is what the next tick takes up, or a tick has it. -/
structure Inv (s : LinkIntent) : Prop where
  enabled : s.last = some true → s.cfg.enabled = true
  next : s.dirty = true → ∀ i, s.last = some i → s.next = i
  underway : s.dirty = false → ∀ i, s.last = some i → s.Underway i
  running : s.ticking ≠ .idle → s.settled = false ∧ s.since = !s.dirty
  keeps : s.KeepsIntent

variable {s : LinkIntent}

theorem inv_setConfig (s : LinkIntent) (cfg : CellularConfig) : (s.setConfig cfg).Inv where
  enabled hl := by simpa [LinkIntent.setConfig] using hl
  next _ i hi := by simpa [LinkIntent.setConfig, LinkIntent.next] using hi
  underway hd := by simp [LinkIntent.setConfig, dirty] at hd
  running _ := by simp [LinkIntent.setConfig, dirty]
  keeps hs := by simp [LinkIntent.setConfig] at hs

theorem Inv.connect (h : s.Inv) : s.connect.Inv := by
  unfold LinkIntent.connect
  split
  · exact h
  · rename_i he
    have he : s.cfg.enabled = true := by simpa using he
    refine ⟨fun _ => he, fun _ i hi => ?_, fun hd => ?_, fun _ => ?_, fun hs => ?_⟩
    · obtain rfl : true = i := Option.some.inj hi
      simp [LinkIntent.next, he]
    · simp [dirty] at hd
    · simp [dirty]
    · cases hs

theorem inv_disconnect (hs : s.InStep .disconnect) : s.disconnect.Inv := by
  refine ⟨fun hl => ?_, fun _ i hi => ?_, fun hd => ?_, fun _ => ?_, fun hst => ?_⟩
  · cases hl
  · obtain rfl : false = i := Option.some.inj hi
    have := hs
    simp only [InStep] at this
    simp only [LinkIntent.disconnect, LinkIntent.next]
    grind
  · simp [LinkIntent.disconnect, dirty] at hd
  · simp [LinkIntent.disconnect, dirty]
  · cases hst

theorem Inv.copy (h : s.Inv) : s.copy.Inv := by
  unfold LinkIntent.copy
  split
  · rename_i ht
    refine ⟨h.enabled, fun hd => ?_, fun _ i hi => ?_, fun _ => ?_, fun hst => ?_⟩
    · cases hd
    · -- what the tick has copied is what it was to take up
      have hnext := h.next
      have hunder := h.underway
      simp only [Underway, ht, dirty, LinkIntent.next, Linked] at hnext hunder ⊢
      refine ⟨trivial, ?_, fun hc hi' => hunder (by simp [hc, hi']) i hi⟩
      cases hd : s.cfgDirty || s.intentDirty with
      | true => exact hnext hd i hi
      | false =>
        have hc : s.cfgDirty = false := (Bool.or_eq_false_iff.mp hd).1
        simpa [hc] using (hunder hd i hi).1
    · exact ⟨rfl, rfl⟩
    · cases hst
  · exact h

theorem Inv.drive (h : s.Inv) : s.drive.Inv := by
  unfold LinkIntent.drive
  split
  · rename_i cfg cc ic w ht
    have hrun := h.running (by simp [ht])
    have hnext := h.next
    have hunder := h.underway
    simp only [Underway, ht, dirty, LinkIntent.next, Linked] at hnext hunder
    dsimp only
    split
    · refine ⟨h.enabled, hnext, fun hd i hi => ?_, fun _ => hrun, fun hst => ?_⟩
      · have := hunder hd i hi
        simp only [Underway]
        grind
      · exact absurd (hrun.1.symm.trans hst) Bool.false_ne_true
    · refine ⟨h.enabled, hnext, fun hd i hi => ?_, fun _ => hrun, fun hst => ?_⟩
      · have := hunder hd i hi
        simp only [Underway, Linked]
        grind
      · exact absurd (hrun.1.symm.trans hst) Bool.false_ne_true
  · exact h

theorem Inv.keep (h : s.Inv) (hs : s.InStep .keep) : s.keep.Inv := by
  unfold LinkIntent.keep
  split
  · rename_i cfg w ht
    have hrun := h.running (by simp [ht])
    have hnext := h.next
    have hunder := h.underway
    simp only [InStep, ht] at hs
    simp only [Underway, ht, dirty, LinkIntent.next] at hnext hunder
    refine ⟨h.enabled, fun hd i hi => ?_, fun hd i hi => ?_, fun _ => hrun, fun hst => ?_⟩
    · -- an intent that came since the copy is still there
      have := hnext hd i hi
      simp only [LinkIntent.next, dirty] at hd ⊢
      grind
    · have := hunder hd i hi
      simp only [Underway, Linked]
      grind
    · exact absurd (hrun.1.symm.trans hst) Bool.false_ne_true
  · exact h

theorem Inv.scan (h : s.Inv) (scanning : Bool) : (s.scan scanning).Inv := by
  unfold LinkIntent.scan
  split
  · rename_i cfg w ht
    have hrun := h.running (by simp [ht])
    have hen := h.enabled
    have hnext := h.next
    have hunder := h.underway
    have hst (hst : s.settled = true) : False := by
      exact absurd (hrun.1.symm.trans hst) Bool.false_ne_true
    simp only [Underway, ht, dirty, LinkIntent.next, Linked] at hnext hunder
    split
    · -- what is wanted of a link that is switched off is that it is down
      refine ⟨hen, hnext, fun hd i hi => ?_, fun _ => hrun, fun hs => (hst hs).elim⟩
      have := hunder hd i hi
      simp only [Underway, Linked]
      grind
    · split
      · refine ⟨hen, hnext, fun hd i hi => ?_, fun _ => hrun, fun hs => (hst hs).elim⟩
        have := hunder hd i hi
        simp only [Underway, Linked]
        grind
      · split
        · refine ⟨hen, hnext, fun hd i hi => ?_, fun _ => hrun, fun hs => (hst hs).elim⟩
          have := hunder hd i hi
          simp only [Underway, Linked]
          grind
        · refine ⟨hen, hnext, fun hd i hi => ?_, fun _ => hrun, fun hs => (hst hs).elim⟩
          have := hunder hd i hi
          simp only [Underway, Linked]
          grind
  · exact h

theorem Inv.pin (h : s.Inv) (new : Text) : (s.pin new).Inv := by
  unfold LinkIntent.pin
  split
  · rename_i quiet ht
    refine ⟨h.enabled, h.next, fun hd i hi => ?_, h.running, h.keeps⟩
    have := h.underway hd i hi
    simp only [Underway, ht, Linked] at this ⊢
    exact this
  · exact h

theorem Inv.publish (h : s.Inv) : s.publish.Inv := by
  unfold LinkIntent.publish
  split
  · rename_i quiet ht
    have hrun := h.running (by simp [ht])
    have hunder := h.underway
    simp only [Underway, ht, Linked] at hunder
    refine ⟨h.enabled, h.next, fun hd i hi => ?_, fun hne => absurd rfl hne, fun hst i hi => ?_⟩
    · have := hunder hd i hi
      exact ⟨this.1, this.2.1⟩
    · simp only [Bool.and_eq_true] at hst
      have hd : s.dirty = false := by simpa [hst.2] using hrun.2
      exact (hunder hd i hi).2.2 hst.1
  · exact h

theorem Inv.step (h : s.Inv) (e : IntentEvent) (hs : s.InStep e) : (s.step e).Inv := by
  cases e with
  | setConfig cfg => exact inv_setConfig s cfg
  | connect => exact h.connect
  | disconnect => exact inv_disconnect hs
  | copy => exact h.copy
  | drive => exact h.drive
  | keep => exact h.keep hs
  | scan scanning => exact h.scan scanning
  | pin new => exact h.pin new
  | publish => exact h.publish

theorem inv_start : Inv {} where
  enabled hl := by cases hl
  next _ _ hi := by cases hi
  underway _ _ hi := by cases hi
  running hne := absurd rfl hne
  keeps hs := by cases hs

instance (s : LinkIntent) : (e : IntentEvent) → Decidable (s.InStep e)
  | .disconnect => inferInstanceAs (Decidable (_ → _))
  | .keep =>
    match h : s.ticking with
    | .driven _ wantUp =>
      decidable_of_iff (s.intentDirty = true → s.cfgDirty = false → s.wantUp = wantUp)
        (by simp [InStep, h])
    | .idle | .copied _ _ _ _ | .kept _ _ | .held _ => .isTrue (by simp [InStep, h])
  | .setConfig _ | .connect | .copy | .drive | .scan _ | .pin _ | .publish => .isTrue trivial

/-- In every run whose steps all meet the condition, a whole tick without a scan after the last
call has told the link what that call wants. -/
theorem keepsIntent_run {es : List IntentEvent} (h : Along step InStep {} es) :
    Always step KeepsIntent {} es :=
  (always_of_along (fun _ e hi hs => hi.step e hs) inv_start h).mono fun _ hi => hi.keeps

/-- A tick without anything between its parts. -/
def tick (scanning : Bool) : List IntentEvent := [.copy, .drive, .keep, .scan scanning, .publish]

/-- Cellular is switched on, and given up during a scan. -/
def givenUp : List IntentEvent :=
  .setConfig { enabled := true } :: tick false ++ tick true ++
    [.copy, .drive, .disconnect, .keep, .scan true, .publish] ++ tick false

theorem keepsIntent_run_givenUp : Always step KeepsIntent {} givenUp :=
  keepsIntent_run (by decide)

/-- The link is given up between what a tick has it do and what it writes back. -/
def givenUpMeanwhile : List IntentEvent :=
  .setConfig { enabled := true } :: tick false ++
    [.connect, .copy, .drive, .disconnect, .keep, .scan false, .publish] ++ tick false

theorem not_keepsIntent_run_givenUpMeanwhile : ¬ ∀ es, Always step KeepsIntent {} es := by
  intro h
  have hkept := h givenUpMeanwhile _ List.prefix_rfl (by decide) false (by decide)
  exact absurd hkept (by decide)

end LinkIntent

end Machino.Net
