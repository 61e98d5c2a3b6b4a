import Mathlib.Algebra.Order.Ring.Nat
import Mathlib.Data.List.Chain
import Mathlib.Tactic.Ring
import Machino.Watchdog.WatchdogService

namespace Machino.Watchdog

/-- The service with the times of the last heartbeat, the last tick and the feeds, of which the
latest is first; the start counts for all of them. -/
structure Timed where
  service : WatchdogService
  now : ℕ
  beat : ℕ
  ticked : ℕ
  feeds : List ℕ

section onTime

variable (timeoutS feedIntervalMs effective : ℤ) (b g : ℕ)

/-- Nothing comes when the last heartbeat is more than `b` or the last tick more than `g` ago. -/
inductive OnTime : Timed → Prop
  | start (now : ℕ) (taken : Bool) :
    OnTime ⟨((WatchdogService.new timeoutS feedIntervalMs).start now true (some effective) taken).1,
      now, now, now, [now]⟩
  | heartbeat {s : Timed} {t : ℕ} : OnTime s → s.now ≤ t → t ≤ s.beat + b → t ≤ s.ticked + g →
    OnTime { s with service := s.service.heartbeat, now := t, beat := t }
  | tick {s : Timed} {t : ℕ} (taken : Bool) : OnTime s → s.now ≤ t → t ≤ s.beat + b →
    t ≤ s.ticked + g →
    OnTime { s with
      service := (s.service.tick t taken).1
      now := t
      ticked := t
      feeds := if .feed ∈ (s.service.tick t taken).2.asks then t :: s.feeds else s.feeds }

/-- The driver's timeout never runs out between two feeds. -/
def NeverFires : Prop := ∀ s, OnTime timeoutS feedIntervalMs effective b g s →
  s.feeds.IsChain fun later earlier : ℕ => (later : ℤ) - earlier < 1000 * effective

end onTime

/-- How far two due ticks can be apart. -/
def dueGap (f g : ℕ) : ℕ := f + g - 1

/-- The due ticks that can miss a heartbeat, and the one that sees it. -/
def worstGap (f b g : ℕ) : ℕ := min b (b / f * dueGap f g) + dueGap f g

theorem feedMs_new_pos (timeoutS feedIntervalMs : ℤ) :
    0 < (WatchdogService.new timeoutS feedIntervalMs).feedMs := by
  change 0 < feedInterval _ _
  unfold feedInterval
  generalize (if 0 < feedIntervalMs then feedIntervalMs else _) = feed
  dsimp only
  split <;> omega

/-- Since the last feed there have been `k` due ticks, the last of them at `due`. -/
structure Paced (f b g fed due k : ℕ) (s : Timed) : Prop where
  isOpen : s.service.isOpen = true
  feedMs : s.service.feedMs = f
  last : s.feeds.head? = some fed
  nextDue : s.service.nextDueMs = due + f
  slowest : due ≤ fed + k * dueGap f g
  fastest : fed + k * f ≤ due
  seen : due ≤ fed + b
  early : s.ticked < due + f
  still : s.service.epoch = s.service.fedAtEpoch → s.beat ≤ fed
  beat : s.beat ≤ s.now
  epoch : s.service.fedAtEpoch ≤ s.service.epoch
  gaps : s.feeds.IsChain fun later earlier => later ≤ earlier + worstGap f b g

namespace Paced

variable {f b g fed due k t : ℕ} {s : Timed}

theorem heartbeat (h : Paced f b g fed due k s) :
    Paced f b g fed due k { s with service := s.service.heartbeat, now := t, beat := t } where
  __ := h
  still he := absurd he (Nat.lt_succ_of_le h.epoch).ne'
  beat := le_rfl
  epoch := h.epoch.trans (Nat.le_succ _)

theorem tick_early (h : Paced f b g fed due k s) (ht : s.now ≤ t) (hd : t < due + f) :
    Paced f b g fed due k { s with now := t, ticked := t } where
  __ := h
  early := hd
  beat := h.beat.trans ht

theorem le_dueGap (h : Paced f b g fed due k s) (hg : t ≤ s.ticked + g) : t ≤ due + dueGap f g := by
  have hearly := h.early
  unfold dueGap
  omega

theorem tick_still (h : Paced f b g fed due k s) (hf : 0 < f) (ht : s.now ≤ t)
    (hb : t ≤ s.beat + b) (hg : t ≤ s.ticked + g) (hd : due + f ≤ t)
    (he : s.service.epoch = s.service.fedAtEpoch) :
    Paced f b g fed t (k + 1) { s with service := s.service.skip t, now := t, ticked := t } where
  isOpen := h.isOpen
  feedMs := h.feedMs
  last := h.last
  nextDue := congrArg (t + ·) h.feedMs
  slowest := by
    have hdue := h.le_dueGap hg
    have hslow := h.slowest
    rw [Nat.succ_mul]
    omega
  fastest := by
    have hfast := h.fastest
    rw [Nat.succ_mul]
    omega
  seen := by
    have hstill := h.still he
    omega
  early := Nat.lt_add_of_pos_right hf
  still := h.still
  beat := h.beat.trans ht
  epoch := h.epoch
  gaps := h.gaps

/-- No more due ticks fit between two heartbeats. -/
theorem le_worstGap (h : Paced f b g fed due k s) (hf : 0 < f) (hg : t ≤ s.ticked + g) :
    t ≤ fed + worstGap f b g := by
  have hdue := h.le_dueGap hg
  have hseen := h.seen
  have hslow := h.slowest
  have hk : k ≤ b / f := by
    rw [Nat.le_div_iff_mul_le hf]
    have hfast := h.fastest
    omega
  have hspan : k * dueGap f g ≤ b / f * dueGap f g := Nat.mul_le_mul_right _ hk
  unfold worstGap
  omega

theorem tick_moved (h : Paced f b g fed due k s) (hf : 0 < f) (ht : s.now ≤ t)
    (hg : t ≤ s.ticked + g) (taken : Bool) :
    Paced f b g t t 0
      { s with service := s.service.feedNow t taken, now := t, ticked := t, feeds := t :: s.feeds }
    where
  isOpen := h.isOpen
  feedMs := h.feedMs
  last := rfl
  nextDue := congrArg (t + ·) h.feedMs
  slowest := by omega
  fastest := by omega
  seen := Nat.le_add_right _ _
  early := Nat.lt_add_of_pos_right hf
  still _ := h.beat.trans ht
  beat := h.beat.trans ht
  epoch := le_rfl
  gaps := by
    have hgap := h.le_worstGap hf hg
    cases hfeeds : s.feeds with
    | nil => exact absurd (hfeeds ▸ h.last) (by simp)
    | cons x xs =>
      have hx : x = fed := by simpa [hfeeds] using h.last
      exact List.IsChain.cons_cons (hx ▸ hgap) (hfeeds ▸ h.gaps)

end Paced

section onTime

variable {timeoutS feedIntervalMs effective : ℤ} {b g : ℕ}

/-- Each event of a healthy loop keeps the pace. -/
theorem OnTime.paced {s : Timed} (h : OnTime timeoutS feedIntervalMs effective b g s) :
    ∃ fed due k,
      Paced (WatchdogService.new timeoutS feedIntervalMs).feedMs b g fed due k s := by
  have hf := feedMs_new_pos timeoutS feedIntervalMs
  induction h with
  | start now taken =>
    refine ⟨now, now, 0, rfl, rfl, rfl, rfl, ?_, ?_, Nat.le_add_right _ _,
      Nat.lt_add_of_pos_right hf, fun _ => le_rfl, le_rfl, le_rfl, List.isChain_singleton _⟩
    · omega
    · omega
  | heartbeat _ _ _ _ ih =>
    obtain ⟨fed, due, k, hp⟩ := ih
    exact ⟨fed, due, k, hp.heartbeat⟩
  | @tick s t taken _ ht hb hg ih =>
    obtain ⟨fed, due, k, hp⟩ := ih
    rcases Nat.lt_or_ge t (due + _) with hd | hd
    · refine ⟨fed, due, k, ?_⟩
      rw [Watchdog.tick_early taken (hp.nextDue ▸ hd)]
      exact hp.tick_early ht hd
    · have hdue : s.service.nextDueMs ≤ t := hp.nextDue ▸ hd
      by_cases he : s.service.epoch = s.service.fedAtEpoch
      · refine ⟨fed, t, k + 1, ?_⟩
        rw [Watchdog.tick_still taken hp.isOpen hdue he]
        exact hp.tick_still hf ht hb hg hd he
      · refine ⟨t, t, 0, ?_⟩
        rw [Watchdog.tick_moved taken hp.isOpen hdue he]
        exact hp.tick_moved hf ht hg taken

/-- Ticks before the time do nothing. -/
theorem OnTime.wait {w : WatchdogService} {x beat : ℕ} {fs : List ℕ}
    (h : OnTime timeoutS feedIntervalMs effective b g ⟨w, x, beat, x, fs⟩) (hg : 0 < g) {n : ℕ}
    (hb : x + n ≤ beat + b) (hd : x + n < w.nextDueMs) :
    OnTime timeoutS feedIntervalMs effective b g ⟨w, x + n, beat, x + n, fs⟩ := by
  induction n with
  | zero => exact h
  | succ n ih =>
    have hnext := (ih (by omega) (by omega)).tick (t := x + (n + 1)) true
      (by dsimp only; omega) hb (by dsimp only; omega)
    rwa [Watchdog.tick_early true hd] at hnext

/-- While the loop is still, the due ticks can be anywhere within their bounds. -/
theorem climb (timeoutS feedIntervalMs effective : ℤ) {b g : ℕ} (hg : 0 < g) {f : ℕ}
    (hf : f = (WatchdogService.new timeoutS feedIntervalMs).feedMs) (i : ℕ) :
    ∀ x, i * f ≤ x → x ≤ i * dueGap f g → x ≤ b →
    ∃ w, OnTime timeoutS feedIntervalMs effective b g ⟨w, x, 0, x, [0]⟩ ∧ w.isOpen = true ∧
      w.feedMs = f ∧ w.nextDueMs = x + f ∧ w.epoch = w.fedAtEpoch := by
  have hpos : 0 < f := hf ▸ feedMs_new_pos _ _
  induction i with
  | zero =>
    intro x _ hx _
    obtain rfl : x = 0 := by omega
    exact ⟨_, .start 0 true, rfl, hf.symm, congrArg (0 + ·) hf.symm, rfl⟩
  | succ i ih =>
    intro x hlow hhigh hb
    rw [Nat.succ_mul] at hlow hhigh
    have hle : i * f ≤ i * dueGap f g := Nat.mul_le_mul_left _ (by unfold dueGap; omega)
    -- the due tick before, as late as it has to be
    obtain ⟨w, h, ho, hfeed, hdue, he⟩ :=
      ih (max (i * f) (x - dueGap f g)) (le_max_left _ _) (by omega) (by omega)
    have hwait := h.wait hg (n := f - 1) (by unfold dueGap; omega) (by omega)
    have hgap : dueGap f g = f + g - 1 := rfl
    have hnext := hwait.tick (t := x) true (by dsimp only; omega) (by dsimp only; omega)
      (by dsimp only; omega)
    rw [Watchdog.tick_still true ho (by rw [hdue]; omega) he] at hnext
    exact ⟨w.skip x, hnext, ho, hfeed, congrArg (x + ·) hfeed, he⟩

/-- The loop is back just after the tick, and beats until the next one that is due. -/
theorem OnTime.late {w : WatchdogService} {f x : ℕ}
    (h : OnTime timeoutS feedIntervalMs effective b g ⟨w, x, 0, x, [0]⟩) (hg : 0 < g) (hb : 0 < b)
    (hx : x ≤ b) (hf : 0 < f) (ho : w.isOpen = true) (hdue : w.nextDueMs = x + f)
    (he : w.epoch = w.fedAtEpoch) :
    ∃ s, OnTime timeoutS feedIntervalMs effective b g s ∧ s.feeds = [x + dueGap f g, 0] := by
  -- a beat and a tick at every moment until the time comes
  have hbeats : ∀ n < f, ∃ e, w.fedAtEpoch < e ∧
      OnTime timeoutS feedIntervalMs effective b g
        ⟨{ w with epoch := e }, x + n, x + n, x + n, [0]⟩ := by
    intro n
    induction n with
    | zero =>
      intro _
      refine ⟨w.epoch + 1, by omega, ?_⟩
      exact h.heartbeat (t := x) le_rfl (by dsimp only; omega) (by dsimp only; omega)
    | succ n ih =>
      intro hn
      obtain ⟨e, hlt, hat⟩ := ih (by omega)
      refine ⟨e + 1, by omega, ?_⟩
      have hbeat := hat.heartbeat (t := x + (n + 1)) (by dsimp only; omega) (by dsimp only; omega)
        (by dsimp only; omega)
      have htick := hbeat.tick (t := x + (n + 1)) true le_rfl (by dsimp only; omega)
        (by dsimp only; omega)
      rwa [Watchdog.tick_early true (by
        change x + (n + 1) < w.nextDueMs
        omega)] at htick
  -- then beats alone, as long as the ticks may stay away
  have hafter : ∀ n ≤ g, ∃ e, w.fedAtEpoch < e ∧
      OnTime timeoutS feedIntervalMs effective b g
        ⟨{ w with epoch := e }, x + (f - 1) + n, x + (f - 1) + n, x + (f - 1), [0]⟩ := by
    intro n
    induction n with
    | zero => exact fun _ => hbeats (f - 1) (by omega)
    | succ n ih =>
      intro hn
      obtain ⟨e, hlt, hat⟩ := ih (by omega)
      refine ⟨e + 1, by omega, ?_⟩
      exact hat.heartbeat (t := x + (f - 1) + (n + 1)) (by dsimp only; omega)
        (by dsimp only; omega) (by dsimp only; omega)
  obtain ⟨e, hlt, hat⟩ := hafter g le_rfl
  have htick := hat.tick (t := x + dueGap f g) true (by dsimp only [dueGap]; omega)
    (by dsimp only [dueGap]; omega) (by dsimp only [dueGap]; omega)
  refine ⟨_, htick, ?_⟩
  have hnow : ({ w with epoch := e } : WatchdogService).nextDueMs ≤ x + dueGap f g := by
    change w.nextDueMs ≤ x + dueGap f g
    unfold dueGap
    omega
  have hmoved := Watchdog.tick_moved (w := { w with epoch := e }) true ho hnow hlt.ne'
  rw [hmoved]
  rfl

/-- The worst gap is reached. -/
theorem exists_worstGap (timeoutS feedIntervalMs effective : ℤ) {b g : ℕ} (hb : 0 < b)
    (hg : 0 < g) :
    ∃ s, OnTime timeoutS feedIntervalMs effective b g s ∧
      s.feeds = [worstGap (WatchdogService.new timeoutS feedIntervalMs).feedMs b g, 0] := by
  have hf := feedMs_new_pos timeoutS feedIntervalMs
  generalize hfeed : (WatchdogService.new timeoutS feedIntervalMs).feedMs = f at hf ⊢
  have hlow : b / f * f ≤ min b (b / f * dueGap f g) :=
    le_min (Nat.div_mul_le_self _ _) (Nat.mul_le_mul_left _ (by unfold dueGap; omega))
  obtain ⟨w, h, ho, -, hdue, he⟩ := climb timeoutS feedIntervalMs effective hg hfeed.symm (b / f) _
    hlow (min_le_right _ _) (min_le_left _ _)
  exact h.late hg hb (min_le_left _ _) hf ho hdue he

/-- The feeds are close enough for every healthy loop just when the worst gap is. -/
theorem neverFires_iff (timeoutS feedIntervalMs effective : ℤ) {b g : ℕ} (hb : 0 < b)
    (hg : 0 < g) :
    NeverFires timeoutS feedIntervalMs effective b g ↔
      (worstGap (WatchdogService.new timeoutS feedIntervalMs).feedMs b g : ℤ) <
        1000 * effective := by
  constructor
  · intro h
    obtain ⟨s, hs, hfeeds⟩ := exists_worstGap timeoutS feedIntervalMs effective hb hg
    have hchain := h s hs
    rw [hfeeds] at hchain
    simpa using hchain
  · intro h s hs
    obtain ⟨fed, due, k, hp⟩ := hs.paced
    refine hp.gaps.imp fun later earlier hle => ?_
    omega

end onTime

/-- The camera's loop and feeder on a driver that takes its fifteen seconds. -/
theorem neverFires_camera : NeverFires 15 0 15 1000 200 ↔ (worstGap 5000 1000 200 : ℤ) < 15000 :=
  neverFires_iff 15 0 15 (by decide) (by decide)

/-- On a driver that takes less than a third of what is asked for, the time between two feeds is
too long although every beat and every tick is there. -/
theorem not_neverFires : ¬∀ (timeoutS effective : ℤ) (b g : ℕ), 0 < b → 0 < g →
    NeverFires timeoutS 0 effective b g := by
  intro h
  obtain ⟨s, hs, hfeeds⟩ := exists_worstGap 15 0 4 (b := 1) (g := 1) (by decide)
    (by decide)
  have hchain := h 15 4 1 1 (by decide) (by decide) s hs
  rw [hfeeds] at hchain
  exact absurd hchain (by decide)

end Machino.Watchdog
