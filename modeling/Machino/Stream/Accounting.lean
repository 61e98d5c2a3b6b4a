import Machino.Stream.StreamHub

namespace Machino.Stream

open Runs

namespace Sink

/-- `Sink::dropped`, which is an `unsigned`. -/
def droppedCount (s : Sink) : UInt32 := .ofNat s.dropped

/-- The frames that make room for another one. -/
def shed (au : AccessUnit) (s : Sink) : List AccessUnit :=
  if s.depth ≤ s.q.length then
    if au.key && s.keySupersedes then s.q else s.q.take 1
  else []

/-- The frames that `pop` passes over: no decoder can use them. -/
def passed (s : Sink) : List AccessUnit :=
  if s.disc then s.q.takeWhile fun au => !au.key else []

/-- What a push does to an open queue of either policy, with the frames that go. -/
inductive Made (au : AccessUnit) (s : Sink) : List AccessUnit → Sink → Prop
  | room : s.q.length < s.depth → Made au s [] { s with q := s.q ++ [au] }
  | flushed : s.keySupersedes = true → s.depth ≤ s.q.length →
      Made au s s.q { s with q := [au], dropped := s.dropped + s.q.length }
  | oldest (old : AccessUnit) (q : List AccessUnit) : s.q = old :: q → s.depth ≤ s.q.length →
      Made au s [old] { s with
        q := q ++ [au], dropped := s.dropped + 1, disc := if !s.keySupersedes then s.disc else true }

theorem made_push {s : Sink} (hopen : s.closed = false) (au : AccessUnit) :
    Made au s (s.shed au) (s.push au) := by
  have hpush : s.push au = { s.makeRoom au with q := (s.makeRoom au).q ++ [au] } :=
    if_neg (by simp [hopen])
  rw [hpush]
  unfold shed makeRoom
  by_cases hfull : s.depth ≤ s.q.length
  · simp only [if_pos hfull]
    by_cases hflush : (au.key && s.keySupersedes) = true
    · simp only [if_pos hflush]
      exact .flushed (Bool.and_eq_true_iff.mp hflush).2 hfull
    · simp only [if_neg hflush]
      obtain ⟨old, q, hq⟩ := List.exists_cons_of_length_pos (s.depth_pos.trans_le hfull)
      have htail : s.q.tail = q := by rw [hq, List.tail_cons]
      have htake : s.q.take 1 = [old] := by rw [hq, List.take_succ_cons, List.take_zero]
      rw [htail, htake]
      exact .oldest old q hq hfull
  · simp only [if_neg hfull]
    exact .room (Nat.lt_of_not_le hfull)

/-- What a turn of `pop` does, with the frames that it passes over. -/
inductive Took (s : Sink) : List AccessUnit → Option (AccessUnit × Bool) × Sink → Prop
  | next (au : AccessUnit) (q : List AccessUnit) : s.q = au :: q →
      Took s [] (some (au, false), { s with q := q })
  | resumed (lost : List AccessUnit) (au : AccessUnit) (q : List AccessUnit) :
      s.disc = true → s.q = lost ++ au :: q →
      Took s lost (some (au, true),
        { s with q := q, disc := false, dropped := s.dropped + lost.length })
  | drained : s.disc = true ∨ s.q = [] →
      Took s s.q (none, { s with q := [], dropped := s.dropped + s.q.length })

theorem took_pop (s : Sink) : Took s s.passed s.pop := by
  unfold pop passed
  cases hdisc : s.disc with
  | false =>
    rw [if_neg Bool.false_ne_true]
    cases hq : s.q with
    | nil =>
      have h := Took.drained (.inr hq)
      rw [hq] at h
      exact h
    | cons au q =>
      unfold popFrom
      rw [if_pos (by simp [hdisc])]
      exact .next au q hq
  | true =>
    rw [if_pos rfl]
    -- the frames before the rest of the queue are counted and are no keys
    have hloop (lost q : List AccessUnit) (hq : s.q = lost ++ q) :
        Took s (lost ++ q.takeWhile fun au => !au.key)
          (popFrom { s with dropped := s.dropped + lost.length } q) := by
      induction q generalizing lost with
      | nil =>
        have h := Took.drained (.inl hdisc)
        rw [hq] at h
        simpa only [List.append_nil, List.takeWhile_nil, popFrom] using h
      | cons au q ih =>
        unfold popFrom
        rw [if_neg (by simp [hdisc])]
        by_cases hkey : au.key = true
        · rw [if_pos hkey, List.takeWhile_cons_of_neg (by simp [hkey]), List.append_nil]
          exact .resumed lost au q hdisc hq
        · rw [if_neg hkey, List.takeWhile_cons_of_pos (by simp [hkey])]
          have h := ih (lost ++ [au]) (by rw [hq, List.append_assoc, List.singleton_append])
          rw [List.length_append, List.append_assoc] at h
          exact h
    exact hloop [] s.q rfl

end Sink

/-- A frame that is no longer queued, and how many the queue held with it. -/
structure Departure where
  au : AccessUnit
  delivered : Bool
  held : ℕ

/-- A queue, what was given to it, and what left it, in the order in which it left. -/
structure Account where
  sink : Sink
  pushed : List AccessUnit := []
  left : List Departure := []

/-- The locked sections before `close`. A `pop` that waits goes on with another turn. -/
inductive SinkOp where
  | push (au : AccessUnit)
  | pop

namespace Account

def dropAll (aus : List AccessUnit) (held : ℕ) : List Departure :=
  aus.map fun au => ⟨au, false, held⟩

def push (au : AccessUnit) (a : Account) : Account where
  sink := a.sink.push au
  pushed := a.pushed ++ [au]
  left := a.left ++ dropAll (a.sink.shed au) a.sink.q.length

def pop (a : Account) : Account where
  sink := a.sink.pop.2
  pushed := a.pushed
  left := a.left ++ dropAll a.sink.passed a.sink.q.length ++
    (a.sink.pop.1.map fun r => (⟨r.1, true, a.sink.q.length⟩ : Departure)).toList

def step (a : Account) : SinkOp → Account
  | .push au => a.push au
  | .pop => a.pop

def start (depth : ℕ) (keySupersedes : Bool) : Account := { sink := .create depth keySupersedes }

def delivered (a : Account) : ℕ := a.left.countP fun d => d.delivered

def dropped (a : Account) : ℕ := a.left.countP fun d => !d.delivered

/-- Every frame has left the queue in its order or is still in it, and each that was not delivered
has been counted. -/
structure Balanced (a : Account) : Prop where
  opened : a.sink.closed = false
  bounded : a.sink.q.length ≤ a.sink.depth
  frames : a.pushed = a.left.map (fun d => d.au) ++ a.sink.q
  counted : a.sink.dropped = a.dropped

/-- Nothing but the oldest frame of a full queue has been dropped. -/
structure OnlyOldest (a : Account) : Prop where
  continuous : a.sink.disc = false
  full : ∀ d ∈ a.left, d.delivered = false → d.held = a.sink.depth

@[simp] theorem map_dropAll (aus : List AccessUnit) (n : ℕ) :
    (dropAll aus n).map (fun d => d.au) = aus := by
  unfold dropAll
  rw [List.map_map]
  exact List.map_id aus

@[simp] theorem countP_dropAll (aus : List AccessUnit) (n : ℕ) :
    (dropAll aus n).countP (fun d => !d.delivered) = aus.length := by
  unfold dropAll
  rw [List.countP_map]
  exact List.countP_eq_length.mpr fun _ _ => rfl

theorem held_dropAll {aus : List AccessUnit} {n : ℕ} {d : Departure} (h : d ∈ dropAll aus n) :
    d.held = n := by
  obtain ⟨au, -, rfl⟩ := List.mem_map.mp h
  rfl

theorem policy_step (a : Account) (op : SinkOp) (hopen : a.sink.closed = false) :
    (a.step op).sink.depth = a.sink.depth ∧
      (a.step op).sink.keySupersedes = a.sink.keySupersedes := by
  cases op with
  | push au =>
    have hmade := Sink.made_push hopen au
    show (a.sink.push au).depth = _ ∧ (a.sink.push au).keySupersedes = _
    generalize a.sink.push au = sink, a.sink.shed au = lost at hmade ⊢
    cases hmade <;> exact ⟨rfl, rfl⟩
  | pop =>
    have htook := Sink.took_pop a.sink
    show a.sink.pop.2.depth = _ ∧ a.sink.pop.2.keySupersedes = _
    generalize a.sink.pop = r, a.sink.passed = lost at htook ⊢
    cases htook <;> exact ⟨rfl, rfl⟩

theorem Balanced.push {a : Account} (h : a.Balanced) (au : AccessUnit) : (a.push au).Balanced := by
  have hmade := Sink.made_push h.opened au
  have hpos := a.sink.depth_pos
  have hbounded := h.bounded
  have hcounted := h.counted
  unfold Account.push
  generalize a.sink.push au = sink, a.sink.shed au = lost at hmade ⊢
  cases hmade with
  | room hroom =>
    refine ⟨h.opened, ?_, ?_, ?_⟩
    · rw [List.length_append, List.length_singleton]
      exact hroom
    · rw [h.frames, List.map_append, map_dropAll, List.append_nil, List.append_assoc]
    · show a.sink.dropped = _
      rw [hcounted, dropped, dropped, List.countP_append, countP_dropAll, List.length_nil,
        Nat.add_zero]
  | flushed hvideo hfull =>
    refine ⟨h.opened, hpos, ?_, ?_⟩
    · rw [h.frames, List.map_append, map_dropAll]
    · show a.sink.dropped + a.sink.q.length = _
      rw [hcounted, dropped, dropped, List.countP_append, countP_dropAll]
  | oldest old q hq hfull =>
    refine ⟨h.opened, ?_, ?_, ?_⟩
    · rw [hq, List.length_cons] at hbounded
      rw [List.length_append, List.length_singleton]
      exact hbounded
    · rw [h.frames, hq, List.map_append, map_dropAll]
      simp only [List.append_assoc, List.cons_append, List.nil_append]
    · show a.sink.dropped + 1 = _
      rw [hcounted, dropped, dropped, List.countP_append, countP_dropAll, List.length_singleton]

theorem Balanced.pop {a : Account} (h : a.Balanced) : a.pop.Balanced := by
  have htook := Sink.took_pop a.sink
  have hbounded := h.bounded
  have hcounted := h.counted
  unfold Account.pop
  generalize a.sink.pop = r, a.sink.passed = lost at htook ⊢
  cases htook with
  | next au q hq =>
    refine ⟨h.opened, ?_, ?_, ?_⟩
    · rw [hq, List.length_cons] at hbounded
      exact (Nat.le_succ _).trans hbounded
    · rw [h.frames, hq]
      simp
    · show a.sink.dropped = _
      rw [hcounted, dropped, dropped]
      simp
  | resumed lost au q hdisc hq =>
    refine ⟨h.opened, ?_, ?_, ?_⟩
    · rw [hq, List.length_append, List.length_cons] at hbounded
      show q.length ≤ a.sink.depth
      omega
    · rw [h.frames, hq]
      simp
    · show a.sink.dropped + lost.length = _
      rw [hcounted, dropped, dropped]
      simp
  | drained hempty =>
    refine ⟨h.opened, Nat.zero_le _, ?_, ?_⟩
    · rw [h.frames]
      simp
    · show a.sink.dropped + a.sink.q.length = _
      rw [hcounted, dropped, dropped]
      simp

theorem Balanced.step {a : Account} (h : a.Balanced) (op : SinkOp) : (a.step op).Balanced := by
  cases op with
  | push au => exact h.push au
  | pop => exact h.pop

theorem OnlyOldest.push {a : Account} (h : a.OnlyOldest) (hbal : a.Balanced)
    (haudio : a.sink.keySupersedes = false) (au : AccessUnit) : (a.push au).OnlyOldest := by
  have hmade := Sink.made_push hbal.opened au
  have hbounded := hbal.bounded
  unfold Account.push
  generalize a.sink.push au = sink, a.sink.shed au = lost at hmade ⊢
  cases hmade with
  | room hroom => exact ⟨h.continuous, by simpa [dropAll] using h.full⟩
  | flushed hvideo hfull => exact absurd (haudio.symm.trans hvideo) Bool.false_ne_true
  | oldest old q hq hfull =>
    refine ⟨by simpa [haudio] using h.continuous, ?_⟩
    intro d hd hlost
    rcases List.mem_append.mp hd with hd | hd
    · exact h.full d hd hlost
    · exact (held_dropAll hd).trans (Nat.le_antisymm hbounded hfull)

theorem OnlyOldest.pop {a : Account} (h : a.OnlyOldest) : a.pop.OnlyOldest := by
  have htook := Sink.took_pop a.sink
  unfold Account.pop
  generalize a.sink.pop = r, a.sink.passed = lost at htook ⊢
  cases htook with
  | next au q hq =>
    refine ⟨h.continuous, ?_⟩
    intro d hd hlost
    rcases List.mem_append.mp hd with hd | hd
    · exact h.full d (by simpa [dropAll] using hd) hlost
    · obtain rfl : d = _ := by simpa using hd
      exact absurd hlost (by simp)
  | resumed lost au q hdisc hq =>
    exact absurd (h.continuous.symm.trans hdisc) Bool.false_ne_true
  | drained hempty =>
    have hq : a.sink.q = [] := hempty.resolve_left (by simp [h.continuous])
    exact ⟨h.continuous, by simpa [dropAll, hq] using h.full⟩

theorem OnlyOldest.step {a : Account} (h : a.OnlyOldest) (hbal : a.Balanced)
    (haudio : a.sink.keySupersedes = false) (op : SinkOp) : (a.step op).OnlyOldest := by
  cases op with
  | push au => exact h.push hbal haudio au
  | pop => exact h.pop

/-- What holds of a queue in every state before it is closed. -/
structure Accounted (depth : ℕ) (keySupersedes : Bool) (a : Account) : Prop
    extends Balanced a where
  depth_eq : a.sink.depth = if depth = 0 then 1 else depth
  policy : a.sink.keySupersedes = keySupersedes
  oldest : keySupersedes = false → a.OnlyOldest

theorem accounted_start (depth : ℕ) (keySupersedes : Bool) :
    Accounted depth keySupersedes (start depth keySupersedes) where
  opened := rfl
  bounded := Nat.zero_le _
  frames := rfl
  counted := rfl
  depth_eq := rfl
  policy := rfl
  oldest := fun _ => ⟨rfl, fun _ hd => absurd hd List.not_mem_nil⟩

theorem Accounted.step {depth : ℕ} {keySupersedes : Bool} {a : Account}
    (h : Accounted depth keySupersedes a) (op : SinkOp) :
    Accounted depth keySupersedes (a.step op) := by
  obtain ⟨hdepth, hpolicy⟩ := policy_step a op h.opened
  refine ⟨h.toBalanced.step op, hdepth.trans h.depth_eq, hpolicy.trans h.policy, ?_⟩
  intro haudio
  exact (h.oldest haudio).step h.toBalanced (h.policy.trans haudio) op

theorem accounted_run (depth : ℕ) (keySupersedes : Bool) (ops : List SinkOp) :
    Accounted depth keySupersedes (run step (start depth keySupersedes) ops) :=
  run_invariant (fun _ op h => h.step op) (accounted_start depth keySupersedes) ops

/-- A frame that has left the queue was delivered or dropped. -/
theorem length_left (a : Account) : a.left.length = a.delivered + a.dropped := by
  unfold delivered dropped
  rw [List.length_eq_countP_add_countP fun d => d.delivered]
  simp only [Bool.not_eq_true, Bool.decide_eq_false]

/-- No frame is lost to the account, and the audio policy gives up only the oldest frame of a full
queue. -/
theorem sink_accounting (depth : ℕ) (keySupersedes : Bool) (ops : List SinkOp) :
    let a := run step (start depth keySupersedes) ops
    a.sink.q.length ≤ (if depth = 0 then 1 else depth) ∧
      a.pushed = a.left.map (fun d => d.au) ++ a.sink.q ∧
      a.pushed.length = a.delivered + a.sink.dropped + a.sink.q.length ∧
      a.sink.droppedCount = UInt32.ofNat a.dropped ∧
      (keySupersedes = false → a.OnlyOldest) := by
  intro a
  have h : Accounted depth keySupersedes a := accounted_run depth keySupersedes ops
  refine ⟨h.bounded.trans_eq h.depth_eq, h.frames, ?_, ?_, h.oldest⟩
  · rw [h.frames, List.length_append, List.length_map, length_left, h.counted]
  · rw [Sink.droppedCount, h.counted]

end Account

end Machino.Stream
