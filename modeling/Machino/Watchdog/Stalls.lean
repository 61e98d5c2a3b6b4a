import Mathlib.Order.Nat
import Machino.Watchdog.WatchdogService

namespace Machino.Watchdog

/-- A feed that the last heartbeat still allows. -/
def debt (w : WatchdogService) : ℕ := if w.epoch = w.fedAtEpoch then 0 else 1

theorem debt_le_one (w : WatchdogService) : debt w ≤ 1 := by
  unfold debt
  split <;> omega

theorem feedCalls_cons (o : Outcome) (os : List Outcome) :
    feedCalls (o :: os) = feedCalls [o] + feedCalls os := by
  simp [feedCalls]

theorem heartbeats_cons (i : Input) (is : List Input) :
    heartbeats (i :: is) = heartbeats [i] + heartbeats is := by
  unfold heartbeats
  rw [← List.singleton_append, List.countP_append]

/-- A feed uses up a heartbeat. -/
theorem feedCalls_tick (w : WatchdogService) (now : ℕ) (taken : Bool) :
    feedCalls [(w.tick now taken).2] + debt (w.tick now taken).1 ≤ debt w := by
  rcases tick_cases taken w now with h | ⟨-, -, he, h⟩ | ⟨-, -, he, h⟩ <;> rw [h]
  · exact (Nat.zero_add _).le
  · exact (Nat.zero_add _).le
  · have hnow : debt (w.feedNow now taken) = 0 := if_pos rfl
    have hdebt : debt w = 1 := if_neg he
    rw [hnow, hdebt]
    rfl

theorem feedCalls_step (w : WatchdogService) (i : Input) :
    feedCalls [(step w i).2] + debt (step w i).1 ≤ debt w + heartbeats [i] := by
  cases i with
  | heartbeat t =>
    have hone := debt_le_one w.heartbeat
    change 0 + debt w.heartbeat ≤ debt w + 1
    omega
  | tick t taken => exact feedCalls_tick w t taken

theorem feedCalls_run (w : WatchdogService) (is : List Input) :
    feedCalls (run w is).2 + debt (run w is).1 ≤ debt w + heartbeats is := by
  induction is generalizing w with
  | nil => exact (Nat.zero_add _).le
  | cons i is ih =>
    have hstep := feedCalls_step w i
    have hrest := ih (step w i).1
    change feedCalls ((step w i).2 :: (run (step w i).1 is).2) +
      debt (run (step w i).1 is).1 ≤ _
    rw [feedCalls_cons, heartbeats_cons]
    omega

theorem markers_cons (o : Outcome) (os : List Outcome) :
    markers (o :: os) = (if o.marked then 1 else 0) + markers os := by
  unfold markers
  rw [List.countP_cons, Nat.add_comm]

/-- What is reported of a stall depends on the last feed alone. -/
theorem stalls_congr (w w' : WatchdogService) (hh : w'.hasHandler = w.hasHandler)
    (hr : w'.stallReported = w.stallReported) (hl : w'.lastFeedMs = w.lastFeedMs)
    (ha : w'.stallAfterMs = w.stallAfterMs) (now : ℕ) : w'.stalls now = w.stalls now := by
  unfold WatchdogService.stalls
  rw [hh, hr, hl, ha]

theorem stalls_of_reported {w : WatchdogService} (h : w.stallReported = true) (now : ℕ) :
    w.stalls now = false := by
  unfold WatchdogService.stalls
  rw [h, Bool.not_true, Bool.and_false, Bool.false_and]

/-- While the loop is still there are only ticks. -/
theorem tick_of_heartbeats_eq_zero {i : Input} {is : List Input} (h : heartbeats (i :: is) = 0) :
    (∃ t taken, i = .tick t taken) ∧ heartbeats is = 0 := by
  rw [heartbeats_cons, Nat.add_eq_zero_iff] at h
  refine ⟨?_, h.2⟩
  cases i with
  | heartbeat t => exact absurd h.1 Nat.one_ne_zero
  | tick t taken => exact ⟨t, taken, rfl⟩

/-- While the loop is still there is one marker, at the first due tick that is late enough. -/
theorem markers_still {w : WatchdogService} (ho : w.isOpen = true) (he : w.epoch = w.fedAtEpoch)
    {ticks : List Input} (hticks : heartbeats ticks = 0) :
    markers (run w ticks).2 =
      if ∃ p ∈ due w.feedMs w.nextDueMs ticks, w.stalls p.1 = true then 1 else 0 := by
  induction ticks generalizing w with
  | nil => exact (if_neg (by simp [due])).symm
  | cons i is ih =>
    obtain ⟨⟨t, taken, rfl⟩, his⟩ := tick_of_heartbeats_eq_zero hticks
    change markers ((w.tick t taken).2 :: (run (w.tick t taken).1 is).2) = _
    rw [markers_cons, due]
    by_cases hd : t < w.nextDueMs
    · rw [tick_early taken hd, if_pos hd]
      exact (Nat.zero_add _).trans (ih ho he his)
    · rw [tick_still taken ho (by omega) he, if_neg hd]
      dsimp only
      have hrest := ih (w := w.skip t) ho he his
      by_cases hs : w.stalls t = true
      · -- from the marker on nothing more is reported
        have hdone := stalls_of_reported (w := w.skip t) (by simp [WatchdogService.skip, hs])
        have hnone : markers (run (w.skip t) is).2 = 0 :=
          hrest.trans (if_neg fun ⟨p, _, hp⟩ => by simp [hdone] at hp)
        rw [hnone, if_pos hs, if_pos ⟨(t, taken), List.mem_cons_self, hs⟩]
      · have hsame := stalls_congr w (w.skip t) rfl
          (by simp [WatchdogService.skip, hs]) rfl rfl
        rw [hrest, if_neg hs, Nat.zero_add]
        refine if_congr ?_ rfl rfl
        simp only [hsame]
        constructor
        · rintro ⟨p, hp, hlate⟩
          exact ⟨p, List.mem_cons_of_mem _ hp, hlate⟩
        · rintro ⟨p, hp, hlate⟩
          rcases List.mem_cons.mp hp with rfl | hp
          · exact absurd hlate hs
          · exact ⟨p, hp, hlate⟩

theorem stalls_feedNow (w : WatchdogService) (fed now : ℕ) :
    (w.feedNow fed true).stalls now = (w.hasHandler && decide (fed + w.stallAfterMs ≤ now)) := by
  simp [WatchdogService.stalls, WatchdogService.feedNow]

/-- After a heartbeat the first due tick feeds, and the loop is still from there on. -/
theorem markers_moved {w : WatchdogService} (ho : w.isOpen = true) (he : w.epoch ≠ w.fedAtEpoch)
    {ticks : List Input} (hticks : heartbeats ticks = 0) :
    (due w.feedMs w.nextDueMs ticks = [] → markers (run w ticks).2 = 0) ∧
      ∀ fed taken rest, due w.feedMs w.nextDueMs ticks = (fed, taken) :: rest →
        markers (run w ticks).2 =
          if ∃ p ∈ rest, (w.feedNow fed taken).stalls p.1 = true then 1 else 0 := by
  induction ticks with
  | nil => exact ⟨fun _ => rfl, fun _ _ _ h => absurd h (List.cons_ne_nil _ _).symm⟩
  | cons i is ih =>
    obtain ⟨⟨t, taken, rfl⟩, his⟩ := tick_of_heartbeats_eq_zero hticks
    change (_ → markers ((w.tick t taken).2 :: (run (w.tick t taken).1 is).2) = 0) ∧
      ∀ fed taken' rest, _ → markers ((w.tick t taken).2 :: (run (w.tick t taken).1 is).2) = _
    rw [due]
    by_cases hd : t < w.nextDueMs
    · rw [tick_early taken hd, if_pos hd, markers_cons]
      simpa using ih his
    · rw [tick_moved taken ho (by omega) he, if_neg hd, markers_cons]
      refine ⟨fun h => absurd h (List.cons_ne_nil _ _), fun fed taken' rest h => ?_⟩
      obtain ⟨hfirst, rfl⟩ := List.cons.inj h
      obtain ⟨rfl, rfl⟩ := Prod.mk.inj hfirst
      -- the first due tick feeds, taken or not
      exact (Nat.zero_add _).trans (markers_still (w := w.feedNow t taken) ho rfl his)

structure Armed (feedMs stallAfterMs : ℕ) (w : WatchdogService) : Prop where
  isOpen : w.isOpen = true
  hasHandler : w.hasHandler = true
  feedMs : w.feedMs = feedMs
  stallAfterMs : w.stallAfterMs = stallAfterMs
  fed : w.fedAtEpoch ≤ w.epoch

namespace Armed

variable {feedMs stallAfterMs : ℕ} {w : WatchdogService}

theorem step (h : Armed feedMs stallAfterMs w) (i : Input) :
    Armed feedMs stallAfterMs (step w i).1 := by
  cases i with
  | heartbeat t => exact { h with fed := h.fed.trans (Nat.le_succ _) }
  | tick t taken =>
    change Armed feedMs stallAfterMs (w.tick t taken).1
    rcases tick_cases taken w t with htick | ⟨-, -, -, htick⟩ | ⟨-, -, -, htick⟩ <;> rw [htick]
    · exact h
    · exact ⟨h.isOpen, h.hasHandler, h.feedMs, h.stallAfterMs, h.fed⟩
    · exact ⟨h.isOpen, h.hasHandler, h.feedMs, h.stallAfterMs, le_rfl⟩

theorem run (h : Armed feedMs stallAfterMs w) (is : List Input) :
    Armed feedMs stallAfterMs (run w is).1 := by
  induction is generalizing w with
  | nil => exact h
  | cons i is ih => exact ih (h.step i)

end Armed

/-- A service with a handler, started on a driver that opens. -/
def started (timeoutS feedIntervalMs stallAfterMs : ℤ) (now : ℕ) (took : Option ℤ) (taken : Bool) :
    WatchdogService × Result × List Ask :=
  ((WatchdogService.new timeoutS feedIntervalMs).setStallHandler stallAfterMs).start now true took
    taken

theorem started_eq (timeoutS feedIntervalMs stallAfterMs : ℤ) (now : ℕ) (took : Option ℤ)
    (taken : Bool) :
    let w := (started timeoutS feedIntervalMs stallAfterMs now took taken).1
    Armed w.feedMs w.stallAfterMs w ∧ w.epoch = w.fedAtEpoch ∧ w.stallReported = false ∧
      w.lastFeedMs = if taken then some now else none := by
  refine ⟨⟨rfl, rfl, rfl, rfl, le_rfl⟩, rfl, rfl, ?_⟩
  cases taken <;> rfl

/-- What a watchdog does for a loop. -/
structure Watched (now : ℕ) (taken : Bool) (s : WatchdogService × Result × List Ask)
    (is : List Input) : Prop where
  feeds : s.2.2.count .feed + feedCalls (run s.1 is).2 ≤ heartbeats is + 1
  last : ∀ before ticks, is = before ++ ticks → heartbeats ticks = 0 →
    feedCalls (run (run s.1 before).1 ticks).2 ≤ 1
  opening : ∀ ticks after, is = ticks ++ after → heartbeats ticks = 0 →
    markers (run s.1 ticks).2 ≤ 1 ∧
      (taken = true → markers (run s.1 ticks).2 =
        if ∃ p ∈ due s.1.feedMs s.1.nextDueMs ticks, now + s.1.stallAfterMs ≤ p.1 then 1 else 0)
  period : ∀ before t ticks after, is = before ++ .heartbeat t :: ticks ++ after →
    heartbeats ticks = 0 →
    let w := (run s.1 (before ++ [.heartbeat t])).1
    markers (run w ticks).2 ≤ 1 ∧
      (due w.feedMs w.nextDueMs ticks = [] → markers (run w ticks).2 = 0) ∧
      ∀ fed rest, due w.feedMs w.nextDueMs ticks = (fed, true) :: rest →
        markers (run w ticks).2 = if ∃ p ∈ rest, fed + s.1.stallAfterMs ≤ p.1 then 1 else 0

/-- Where a period begins with a heartbeat. -/
theorem Armed.markers_period {feedMs stallAfterMs : ℕ} {w : WatchdogService}
    (h : Armed feedMs stallAfterMs w) (t : ℕ) {ticks : List Input} (hticks : heartbeats ticks = 0) :
    markers (Watchdog.run (Watchdog.step w (.heartbeat t)).1 ticks).2 ≤ 1 ∧
      (due feedMs w.nextDueMs ticks = [] →
        markers (Watchdog.run (Watchdog.step w (.heartbeat t)).1 ticks).2 = 0) ∧
      ∀ fed rest, due feedMs w.nextDueMs ticks = (fed, true) :: rest →
        markers (Watchdog.run (Watchdog.step w (.heartbeat t)).1 ticks).2 =
          if ∃ p ∈ rest, fed + stallAfterMs ≤ p.1 then 1 else 0 := by
  have hnew := h.step (.heartbeat t)
  have hmoved : w.heartbeat.epoch ≠ w.heartbeat.fedAtEpoch := (Nat.lt_succ_of_le h.fed).ne'
  obtain ⟨hnone, hsome⟩ := markers_moved (w := w.heartbeat) hnew.isOpen hmoved hticks
  have hdue : due w.heartbeat.feedMs w.heartbeat.nextDueMs ticks =
      due feedMs w.nextDueMs ticks := by
    rw [← h.feedMs]
    rfl
  rw [hdue] at hnone hsome
  refine ⟨?_, hnone, fun fed rest heq => ?_⟩
  · change markers (Watchdog.run w.heartbeat ticks).2 ≤ 1
    cases hd : due feedMs w.nextDueMs ticks with
    | nil => exact (hnone hd).le.trans (Nat.zero_le 1)
    | cons p rest =>
      rw [hsome p.1 p.2 rest hd]
      split <;> omega
  · change markers (Watchdog.run w.heartbeat ticks).2 = _
    rw [hsome fed true rest heq]
    have hstalls (now : ℕ) : (w.heartbeat.feedNow fed true).stalls now =
        decide (fed + stallAfterMs ≤ now) := by
      rw [stalls_feedNow, ← h.stallAfterMs]
      change (w.hasHandler && _) = _
      rw [h.hasHandler, Bool.true_and]
      rfl
    simp only [hstalls, decide_eq_true_eq]

theorem watched (timeoutS feedIntervalMs stallAfterMs : ℤ) (now : ℕ) (took : Option ℤ)
    (taken : Bool) (is : List Input) :
    Watched now taken (started timeoutS feedIntervalMs stallAfterMs now took taken) is := by
  obtain ⟨harmed, hstill, hreported, hlast⟩ :=
    started_eq timeoutS feedIntervalMs stallAfterMs now took taken
  have hasks : (started timeoutS feedIntervalMs stallAfterMs now took taken).2.2.count .feed = 1 :=
    rfl
  generalize started timeoutS feedIntervalMs stallAfterMs now took taken = s at *
  have hdebt : debt s.1 = 0 := if_pos hstill
  refine ⟨?_, fun before ticks _ hticks => ?_, fun ticks after _ hticks => ?_,
    fun before t ticks after _ hticks => ?_⟩
  · have hrun := feedCalls_run s.1 is
    omega
  · have hrun := feedCalls_run (run s.1 before).1 ticks
    have hone := debt_le_one (run s.1 before).1
    omega
  · -- the feed of the start is the one from which this period counts
    rw [markers_still harmed.isOpen hstill hticks]
    refine ⟨by split <;> omega, fun htaken => if_congr ?_ rfl rfl⟩
    have hstalls (at_ : ℕ) : s.1.stalls at_ = decide (now + s.1.stallAfterMs ≤ at_) := by
      unfold WatchdogService.stalls
      rw [harmed.hasHandler, hreported, hlast, if_pos htaken]
      rfl
    simp only [hstalls, decide_eq_true_eq]
  · have hbefore := harmed.run before
    have hsnoc : (run s.1 (before ++ [.heartbeat t])).1 =
        (step (run s.1 before).1 (.heartbeat t)).1 := by
      rw [run_append]
      rfl
    obtain ⟨hone, hnone, hsome⟩ := hbefore.markers_period t hticks
    have hfeed : (step (run s.1 before).1 (.heartbeat t)).1.feedMs = s.1.feedMs :=
      (hbefore.step _).feedMs
    dsimp only
    rw [hsnoc, hfeed]
    exact ⟨hone, hnone, hsome⟩

/-- The loop is still for longer than the limit, and the next due tick comes too late to see it. -/
theorem not_oncePerHang : ¬∀ (timeoutS feedIntervalMs stallAfterMs : ℤ) (is : List Input)
    (before ticks after : List Input) (t t' : ℕ),
    is = before ++ .heartbeat t :: ticks ++ .heartbeat t' :: after → heartbeats ticks = 0 →
    let w := (started timeoutS feedIntervalMs stallAfterMs 0 none true).1
    t + w.stallAfterMs < t' →
      markers (run (run w (before ++ [.heartbeat t])).1 ticks).2 = 1 := by
  intro h
  have hone := h 15 1000 0
    [.heartbeat 1, .tick 1000 true, .tick 2000 true, .heartbeat 2100, .tick 3000 true]
    [] [.tick 1000 true, .tick 2000 true] [.tick 3000 true] 1 2100 rfl rfl (by decide)
  exact absurd hone (by decide)

end Machino.Watchdog
