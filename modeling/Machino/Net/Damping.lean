import Mathlib.Algebra.Group.Nat.Defs
import Machino.Basic.Runs
import Machino.Net.RoutePlan

namespace Machino.Net

open Runs ConnectivityManager

/-- One evaluation: the time since the one before, and what the uplinks answer to both questions. -/
structure Evaluation where
  elapsed : ℕ
  probe : Probe
  later : Probe

/-- What an evaluation has met and made of it. -/
structure Looked where
  time : ℕ
  before : Option Uplink
  answer : Option Uplink
  window : UInt32
  after : Option Uplink
  deriving DecidableEq, Repr

/-- Since when the evaluations up to the last one have given the answer, the newest first. -/
def heldSince (before answer : Option Uplink) : List Looked → Option ℕ
  | [] => none
  | l :: ls =>
    if l.before = before ∧ l.answer = answer then some ((heldSince before answer ls).getD l.time)
    else none

/-- An uplink is left for another answer only when every evaluation for the length of the window
has given that answer. -/
def Damped : List Looked → Prop
  | [] => True
  | l :: ls =>
    (l.before ≠ none → l.after ≠ l.before →
      l.after = l.answer ∧ ∃ t, heldSince l.before l.answer (l :: ls) = some t ∧
        t + l.window.toNat ≤ l.time) ∧ Damped ls

/-- The manager with its clock, whose reading wraps, and what its evaluations have seen. -/
structure Watched where
  mgr : ConnectivityManager
  time : ℕ := 0
  log : List Looked := []

namespace Watched

def answer (s : Watched) (e : Evaluation) : Option Uplink :=
  select s.mgr.uplinks s.mgr.policy e.probe s.mgr.active

def windowFor (s : Watched) (e : Evaluation) : UInt32 :=
  (s.mgr.active.map (s.mgr.window e.later)).getD 0

/-- The reading of the clock at the evaluation. -/
def reading (s : Watched) (e : Evaluation) : UInt32 := .ofNat (s.time + e.elapsed)

def evaluated (s : Watched) (e : Evaluation) : ConnectivityManager :=
  (evaluate (some (s.reading e)) e.probe e.later s.mgr).2

def step (s : Watched) (e : Evaluation) : Watched where
  mgr := s.evaluated e
  time := s.time + e.elapsed
  log := ⟨s.time + e.elapsed, s.mgr.active, s.answer e, s.windowFor e,
    (s.evaluated e).active⟩ :: s.log

/-- A manager that has not looked yet, with the time on its clock. -/
def start (uplinks : List Uplink) (policy : ManagerPolicy) (time : ℕ) : Watched where
  mgr := { uplinks := uplinks, policy := policy }
  time := time

/-- A wait for no uplink at all goes on or follows the wait for another one, and no window reaches
into the sign bit. -/
def InStep (s : Watched) (e : Evaluation) : Prop :=
  s.mgr.active ≠ none → s.answer e ≠ s.mgr.active →
    (s.windowFor e).toNat < 2 ^ 31 ∧
      (s.answer e = none → s.mgr.pending ≠ none ∨
        (heldSince s.mgr.active none s.log).isSome = true)

instance (s : Watched) (e : Evaluation) : Decidable (s.InStep e) :=
  inferInstanceAs (Decidable (_ → _ → _))

/-- What the manager waits for is what the last evaluations have answered, since the time it has
noted. -/
structure Inv (s : Watched) : Prop where
  unpinned : s.mgr.policy.pinned = false
  since : s.mgr.active ≠ none → ∀ t, heldSince s.mgr.active s.mgr.pending s.log = some t →
    s.mgr.pendingSinceMs = .ofNat t ∧ t ≤ s.time
  held : s.mgr.pending ≠ none →
    (heldSince s.mgr.active s.mgr.pending s.log).isSome = true
  waits : s.mgr.active ≠ none → ∀ c, c ≠ s.mgr.active →
    (heldSince s.mgr.active c s.log).isSome = true → s.mgr.pending = c
  damped : Damped s.log

end Watched

theorem toInt32_sub_le {t t₀ : ℕ} (h : t₀ ≤ t) :
    (UInt32.ofNat t - UInt32.ofNat t₀).toInt32.toInt ≤ ((t - t₀ : ℕ) : ℤ) := by
  obtain ⟨d, rfl⟩ := Nat.exists_eq_add_of_le h
  have hsub : UInt32.ofNat (t₀ + d) - UInt32.ofNat t₀ = UInt32.ofNat d := by
    rw [UInt32.ofNat_add]
    grind
  have hmod : (UInt32.ofNat d).toBitVec.toNat ≤ d := Nat.mod_le _ _
  rw [hsub, Nat.add_sub_cancel_left]
  change (UInt32.ofNat d).toBitVec.toInt ≤ _
  rw [BitVec.toInt_eq_toNat_cond]
  split <;> omega

theorem toInt32_of_lt {w : UInt32} (h : w.toNat < 2 ^ 31) : w.toInt32.toInt = w.toNat := by
  change w.toBitVec.toInt = _
  rw [BitVec.toInt_eq_toNat_cond, if_pos]
  · rfl
  · change 2 * w.toNat < _
    omega

/-- A period that the clock shows to be over is over. -/
theorem elapsed_of_ready {m : ConnectivityManager} {w : UInt32} {t t₀ : ℕ} (h : t₀ ≤ t)
    (hw : w.toNat < 2 ^ 31) (hs : m.pendingSinceMs = .ofNat t₀)
    (hr : m.ready w (.ofNat t) = true) : t₀ + w.toNat ≤ t := by
  unfold ready at hr
  rw [hs, Bool.or_eq_true, decide_eq_true_eq, decide_eq_true_eq] at hr
  rcases hr with rfl | hr
  · exact h
  · have hle := toInt32_sub_le h
    rw [Int32.le_iff_toInt_le, toInt32_of_lt hw] at hr
    omega

theorem heldSince_head {before answer : Option Uplink} {l : Looked} {ls : List Looked}
    (h : (heldSince before answer (l :: ls)).isSome = true) :
    l.before = before ∧ l.answer = answer := by
  unfold heldSince at h
  split at h
  · assumption
  · cases h

theorem switchTo_snd (m : ConnectivityManager) (chosen : Option Uplink) :
    (m.switchTo chosen).2 = { m with active := chosen, pending := none } := by
  unfold switchTo
  split
  · rename_i h
    rw [← h]
  · rfl

@[simp] theorem await_policy (m : ConnectivityManager) (c : Option Uplink) (now : UInt32) :
    (m.await c now).policy = m.policy := by unfold await; split <;> rfl

@[simp] theorem await_active (m : ConnectivityManager) (c : Option Uplink) (now : UInt32) :
    (m.await c now).active = m.active := by unfold await; split <;> rfl

@[simp] theorem await_pending (m : ConnectivityManager) (c : Option Uplink) (now : UInt32) :
    (m.await c now).pending = c := by
  unfold await
  split
  · rfl
  · exact not_not.mp ‹_›

/-- With no uplink to leave, or no other answer, the answer stands at once. -/
theorem evaluate_settled {m : ConnectivityManager} {now : UInt32} {probe later : Probe}
    {chosen : Option Uplink} (hs : select m.uplinks m.policy probe m.active = chosen)
    (h : m.active = none ∨ chosen = m.active) :
    (evaluate (some now) probe later m).2 = { m with active := chosen, pending := none } := by
  rw [← switchTo_snd]
  unfold evaluate
  rw [hs]
  rcases h with h | h
  · rw [h]
  · cases ha : m.active with
    | none => rfl
    | some u =>
      rw [ha] at h
      simp [h]

/-- Another answer has to be ready before it stands. -/
theorem evaluate_leaving {m : ConnectivityManager} {now : UInt32} {probe later : Probe}
    {chosen : Option Uplink} (hs : select m.uplinks m.policy probe m.active = chosen)
    (hp : m.policy.pinned = false) (ha : m.active ≠ none) (hc : chosen ≠ m.active) :
    (evaluate (some now) probe later m).2 =
      if (m.await chosen now).ready ((m.active.map (m.window later)).getD 0) now then
        { m.await chosen now with active := chosen, pending := none }
      else m.await chosen now := by
  obtain ⟨u, hu⟩ := Option.ne_none_iff_exists'.mp ha
  rw [hu] at hc
  rw [← switchTo_snd]
  unfold evaluate
  rw [hs, hu]
  by_cases hr : (m.await chosen now).ready (m.window later u) now = true
  · simp [hp, hc, hr]
  · simp [hp, hc, hr]

namespace Watched

/-- After the answer has been noted, the wait for it starts where its last evaluations do. -/
theorem Inv.await {s : Watched} (hi : s.Inv) {e : Evaluation} (ha : s.mgr.active ≠ none)
    (hc : s.answer e ≠ s.mgr.active) (hs : s.InStep e) {l : Looked}
    (hb : l.before = s.mgr.active) (hl : l.answer = s.answer e)
    (ht : l.time = s.time + e.elapsed) :
    ∃ t, heldSince s.mgr.active (s.answer e) (l :: s.log) = some t ∧ t ≤ l.time ∧
      (s.mgr.await (s.answer e) (.ofNat l.time)).pendingSinceMs = .ofNat t := by
  refine ⟨_, if_pos ⟨hb, hl⟩, ?_⟩
  by_cases hp : s.mgr.pending = s.answer e
  · -- the wait goes on, so the log holds its start
    have hsome : (heldSince s.mgr.active s.mgr.pending s.log).isSome = true := by
      by_cases hn : s.answer e = none
      · rcases (hs ha hc).2 hn with h | h
        · exact absurd (hp.trans hn) h
        · rw [hp, hn]
          exact h
      · exact hi.held (hp ▸ hn)
    obtain ⟨t, hheld⟩ := Option.isSome_iff_exists.mp hsome
    obtain ⟨hsince, hle⟩ := hi.since ha t hheld
    rw [← hp, hheld, ConnectivityManager.await, if_neg (not_not.mpr rfl)]
    exact ⟨hle.trans (ht ▸ Nat.le_add_right _ _), hsince⟩
  · have hnone : heldSince s.mgr.active (s.answer e) s.log = none := by
      by_contra h
      exact hp (hi.waits ha _ hc (Option.isSome_iff_ne_none.mpr h))
    rw [hnone, ConnectivityManager.await, if_pos hp]
    exact ⟨le_rfl, rfl⟩

/-- After an answer that stands nothing is waited for, whatever the log holds before. -/
theorem Inv.of_settled {s : Watched} {l : Looked} {ls : List Looked} (hlog : s.log = l :: ls)
    (hu : s.mgr.policy.pinned = false) (hp : s.mgr.pending = none)
    (hl : l.answer = s.mgr.active) (hd : Damped s.log) : s.Inv where
  unpinned := hu
  since ha t h := by
    have hsome : (heldSince s.mgr.active s.mgr.pending (l :: ls)).isSome = true := by
      rw [← hlog, h]
      rfl
    exact absurd (hl.symm.trans ((heldSince_head hsome).2.trans hp)) ha
  held h := absurd hp h
  waits ha c hc h := by
    rw [hlog] at h
    exact absurd ((heldSince_head h).2.symm.trans hl) hc
  damped := hd

theorem Inv.step {s : Watched} (e : Evaluation) (hi : s.Inv) (hs : s.InStep e) :
    (s.step e).Inv := by
  have hans : select s.mgr.uplinks s.mgr.policy e.probe s.mgr.active = s.answer e := rfl
  unfold Watched.step
  by_cases hstay : s.mgr.active = none ∨ s.answer e = s.mgr.active
  · -- nothing is left, or nothing is left for another answer
    rw [evaluated, evaluate_settled hans hstay]
    refine Inv.of_settled rfl hi.unpinned rfl rfl ⟨fun hb ha => ?_, hi.damped⟩
    rcases hstay with h | h
    · exact absurd h hb
    · exact absurd h ha
  · obtain ⟨ha, hc⟩ := not_or.mp hstay
    rw [evaluated, evaluate_leaving hans hi.unpinned ha hc]
    split
    · -- the answer has stood for the window
      rename_i hready
      obtain ⟨t, hheld, hle, hsince⟩ := hi.await ha hc hs (l := ⟨s.time + e.elapsed,
        s.mgr.active, s.answer e, s.windowFor e, s.answer e⟩) rfl rfl rfl
      have hover := elapsed_of_ready hle (hs ha hc).1 hsince hready
      exact Inv.of_settled rfl ((await_policy ..).symm ▸ hi.unpinned) rfl rfl
        ⟨fun _ _ => ⟨rfl, t, hheld, hover⟩, hi.damped⟩
    · -- it has to stand longer
      obtain ⟨t, hheld, hle, hsince⟩ := hi.await ha hc hs (l := ⟨s.time + e.elapsed,
        s.mgr.active, s.answer e, s.windowFor e, s.mgr.active⟩) rfl rfl rfl
      refine ⟨?_, ?_, ?_, ?_, ⟨fun _ hne => ?_, hi.damped⟩⟩
      · rw [await_policy]
        exact hi.unpinned
      · intro _ t' h
        simp only [await_active, await_pending] at h
        obtain rfl : t = t' := Option.some.inj (hheld.symm.trans h)
        exact ⟨hsince, hle⟩
      · intro _
        simp only [await_active, await_pending]
        rw [hheld]
        rfl
      · intro _ c _ h
        rw [await_pending]
        exact (heldSince_head h).2
      · exact absurd (await_active ..) hne

end Watched

/-- From the start on an uplink is left only for what has been the answer for the length of the
window, in every run of evaluations whose steps all meet the condition. -/
theorem damped_run {uplinks : List Uplink} {policy : ManagerPolicy}
    (hp : policy.pinned = false) {time : ℕ} {es : List Evaluation}
    (h : Along Watched.step Watched.InStep (Watched.start uplinks policy time) es) :
    Always Watched.step (fun s => Damped s.log) (Watched.start uplinks policy time) es := by
  have h0 : (Watched.start uplinks policy time).Inv :=
    ⟨hp, fun ha => absurd rfl ha, fun ha => absurd rfl ha, fun ha => absurd rfl ha, trivial⟩
  exact (always_of_along (fun s e hi hs => hi.step e hs) h0 h).mono fun s hs => hs.damped

/-- A cable and a modem. -/
def eth0 : Uplink := ⟨0, "eth0", .ethernet⟩

def lte0 : Uplink := ⟨1, "lte0", .cellular⟩

/-- Only these carry traffic. -/
def up (us : List Uplink) : Probe where
  state u := if u ∈ us then .connected else .down
  hasInternet u := u ∈ us

/-- The cable is lost, and the modem takes over after three seconds. -/
def failover : List Evaluation :=
  [⟨5000, up [eth0, lte0], up [eth0, lte0]⟩, ⟨1000, up [lte0], up [lte0]⟩,
    ⟨3000, up [lte0], up [lte0]⟩]

theorem damped_run_failover :
    Always Watched.step (fun s => Damped s.log) (Watched.start [eth0, lte0] {} 0) failover :=
  damped_run rfl (by decide)

def outage : List Evaluation :=
  [⟨5000, up [eth0], up [eth0]⟩, ⟨1000, up [], up []⟩]

/-- The only uplink is lost, and the first look at it drops it. -/
theorem not_damped_run_eth0 :
    ¬ ∀ uplinks policy time es, policy.pinned = false → policy.failoverDebounceMs ≠ 0 →
      policy.returnDebounceMs ≠ 0 →
      Always Watched.step (fun s => Damped s.log) (Watched.start uplinks policy time) es := by
  intro h
  obtain ⟨-, t, ht, hle⟩ := (h [eth0] {} 0 outage rfl (by decide) (by decide) _
    List.prefix_rfl).1 (by decide) (by decide)
  obtain rfl : 6000 = t := Option.some.inj (Eq.trans (by decide) ht)
  exact absurd hle (by decide)

end Machino.Net
