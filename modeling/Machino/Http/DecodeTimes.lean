import Machino.Http.HlsTrace

namespace Machino.Fmp4

/-- A step that enters the timeline as it is. -/
def InBounds (p q : ℤ) : Prop := minStepUs < q - p ∧ q - p < maxStepUs

instance (p q : ℤ) : Decidable (InBounds p q) := instDecidableAnd

/-- How far a step moves the timeline: a step out of bounds by one nominal frame. -/
def stride (p q : ℤ) : ℤ := if InBounds p q then q - p else fallbackStepUs

/-- The capture time from the first frame to the last one, as far as it enters the timeline. -/
def elapsed : List ℤ → ℤ
  | [] | [_] => 0
  | p :: q :: s => stride p q + elapsed (q :: s)

/-- What holds of any two frames that follow each other. -/
def Steps (R : ℤ → ℤ → Prop) (pts : List ℤ) : Prop :=
  ∀ pre p q, pre ++ [p, q] <+: pts → R p q

theorem Steps.sub {R : ℤ → ℤ → Prop} {pts pts' : List ℤ} (h : Steps R pts) (hsub : pts' <+: pts) :
    Steps R pts' := by
  intro pre p q hpre
  exact h pre p q (hpre.trans hsub)

theorem Steps.concat {R : ℤ → ℤ → Prop} {pre : List ℤ} {p q : ℤ} (h : Steps R (pre ++ [p]))
    (hlast : R p q) : Steps R (pre ++ [p] ++ [q]) := by
  intro pre' a b hpre
  have hsnoc : pre' ++ [a, b] = pre' ++ [a] ++ [b] := by simp
  rw [hsnoc, List.prefix_concat_iff] at hpre
  rcases hpre with heq | hpre
  · obtain ⟨hinit, rfl⟩ := List.append_singleton_inj.mp heq
    obtain ⟨-, rfl⟩ := List.append_singleton_inj.mp hinit
    exact hlast
  · exact h pre' a b (hsnoc ▸ hpre)

theorem stride_bounds (p q : ℤ) : minStepUs < stride p q ∧ stride p q < maxStepUs := by
  unfold stride
  split_ifs with h
  · exact h
  · exact ⟨by decide, by decide⟩

theorem elapsed_append (pre : List ℤ) (p : ℤ) (s : List ℤ) :
    elapsed (pre ++ p :: s) = elapsed (pre ++ [p]) + elapsed (p :: s) := by
  induction pre with
  | nil => simp [elapsed]
  | cons a pre ih =>
    cases pre with
    | nil => simp [elapsed]
    | cons b pre =>
      simp only [List.cons_append, elapsed] at ih ⊢
      rw [ih, Int.add_assoc]

theorem elapsed_concat (pre : List ℤ) (p q : ℤ) :
    elapsed (pre ++ [p, q]) = elapsed (pre ++ [p]) + stride p q := by
  rw [elapsed_append pre p [q]]
  simp [elapsed]

theorem elapsed_nonneg (pts : List ℤ) : 0 ≤ elapsed pts := by
  induction pts using elapsed.induct with
  | case1 => exact Int.le_refl 0
  | case2 p => exact Int.le_refl 0
  | case3 p q s ih =>
    have hpos : 1000 < stride p q := (stride_bounds p q).1
    unfold elapsed
    omega

/-- Nothing is rounded or added up over steps in bounds. -/
theorem elapsed_inBounds {p q : ℤ} {mid : List ℤ} (h : Steps InBounds (p :: mid ++ [q])) :
    elapsed (p :: mid ++ [q]) = q - p := by
  induction mid generalizing p with
  | nil =>
    have hstep : InBounds p q := h [] p q (List.prefix_refl _)
    simp [elapsed, stride, hstep]
  | cons m mid ih =>
    have hfirst : InBounds p m := h [] p m ⟨mid ++ [q], by simp⟩
    have hrest : Steps InBounds (m :: mid ++ [q]) := by
      intro pre a b hpre
      exact h (p :: pre) a b (by simpa using hpre)
    simp only [List.cons_append, elapsed] at ih ⊢
    rw [ih hrest, stride, if_pos hfirst]
    omega

namespace Timeline

/-- The timeline behind some frames. -/
def after (pts : List ℤ) : Timeline := pts.foldl (fun t p => (t.next p).1) {}

/-- The decode time of a frame that comes behind some others. -/
def timeAt (pre : List ℤ) (p : ℤ) : ℕ := ((after pre).next p).2.1

theorem after_concat (pre : List ℤ) (p : ℤ) : after (pre ++ [p]) = ((after pre).next p).1 :=
  List.foldl_concat ..

theorem timeAt_eq (pre : List ℤ) (p : ℤ) :
    timeAt pre p = ticks (max (after (pre ++ [p])).position 0) := by
  rw [after_concat]
  exact congrArg Prod.fst (next_ticks (after pre) p)

theorem lastUs_after (pre : List ℤ) (p : ℤ) : (after (pre ++ [p])).lastUs = p := by
  rw [after_concat]
  rfl

theorem started_after (pre : List ℤ) (p : ℤ) : (after (pre ++ [p])).started = true := by
  rw [after_concat]
  exact next_started _ _

/-- A step from here is told from the first frame of all, or is in bounds anyway. -/
def Anchored (p q : ℤ) : Prop := 0 < p ∨ InBounds p q

instance (p q : ℤ) : Decidable (Anchored p q) := instDecidableOr

theorem position_first (p : ℤ) : (after [p]).position = 0 := by
  have h := next_position {} p
  exact h

theorem position_concat (pre : List ℤ) (p q : ℤ) :
    (after (pre ++ [p, q])).position =
      (after (pre ++ [p])).position + if 0 < p then stride p q else q - p := by
  have hafter : after (pre ++ [p, q]) = ((after (pre ++ [p])).next q).1 := by
    rw [← after_concat, List.append_assoc]
    rfl
  rw [hafter, next_position, started_after, if_pos rfl]
  congr 1
  unfold advance step stride InBounds
  rw [lastUs_after]
  by_cases hpos : 0 < p
  · simp only [hpos, true_and]
  · rw [if_neg hpos, if_neg hpos]

/-- What a decode time has to do with the one before it, and over a run of steps in bounds with the
capture clock. -/
structure Lawful (pts : List ℤ) : Prop where
  first : ∀ p, [p] <+: pts → timeAt [] p = 0
  monotone : ∀ pre p q, pre ++ [p, q] <+: pts → timeAt pre p ≤ timeAt (pre ++ [p]) q
  contiguous : ∀ pre p q, pre ++ [p, q] <+: pts →
    timeAt (pre ++ [p]) q ≤ timeAt pre p + ticks maxStepUs
  nominal : ∀ pre p q, pre ++ [p, q] <+: pts → ¬ InBounds p q →
    timeAt (pre ++ [p]) q = timeAt pre p + ticks fallbackStepUs
  exact : ∀ pre p mid q, pre ++ (p :: mid ++ [q]) <+: pts → Steps InBounds (p :: mid ++ [q]) →
    timeAt (pre ++ p :: mid) q = ticks (elapsed (pre ++ [p]) + (q - p))

theorem ticks_maxStepUs : ticks maxStepUs = 90000 := by decide

theorem ticks_fallbackStepUs : ticks fallbackStepUs = 4500 := by decide

theorem ticks_mono {x y : ℤ} (h : x ≤ y) : ticks x ≤ ticks y := by
  unfold ticks
  omega

theorem ticks_add_le {x s : ℤ} (h : s < maxStepUs) : ticks (x + s) ≤ ticks x + ticks maxStepUs := by
  rw [ticks_maxStepUs]
  unfold ticks
  unfold maxStepUs at h
  omega

/-- A nominal frame is a whole number of ticks. -/
theorem ticks_add_fallback {x : ℤ} (h : 0 ≤ x) :
    ticks (x + fallbackStepUs) = ticks x + ticks fallbackStepUs := by
  rw [ticks_fallbackStepUs]
  unfold ticks fallbackStepUs
  omega

theorem position_eq {pre : List ℤ} {p : ℤ} (h : Steps Anchored (pre ++ [p])) :
    (after (pre ++ [p])).position = elapsed (pre ++ [p]) := by
  induction pre using List.reverseRecOn generalizing p with
  | nil => exact position_first p
  | append_singleton pre a ih =>
    have hprev : Steps Anchored (pre ++ [a]) := by
      intro pre' b c hpre
      exact h pre' b c (hpre.trans (List.prefix_append _ _))
    have hstep : Anchored a p := h pre a p (by simp)
    rw [List.append_assoc, List.singleton_append, position_concat, elapsed_concat, ih hprev]
    congr 1
    rcases hstep with hpos | hin
    · rw [if_pos hpos]
    · rw [stride, if_pos hin, ite_self]

theorem timeAt_elapsed {pre : List ℤ} {p : ℤ} (h : Steps Anchored (pre ++ [p])) :
    timeAt pre p = ticks (elapsed (pre ++ [p])) := by
  rw [timeAt_eq, position_eq h, max_eq_left (elapsed_nonneg _)]

theorem lawful_of_anchored {pts : List ℤ} (h : Steps Anchored pts) : Lawful pts := by
  have hpair {pre : List ℤ} {p q : ℤ} (hpre : pre ++ [p, q] <+: pts) :
      timeAt pre p = ticks (elapsed (pre ++ [p])) ∧
        timeAt (pre ++ [p]) q = ticks (elapsed (pre ++ [p]) + stride p q) := by
    have hall := h.sub hpre
    rw [← elapsed_concat]
    constructor
    · exact timeAt_elapsed (hall.sub ⟨[q], by simp⟩)
    · have hq : Steps Anchored (pre ++ [p] ++ [q]) := by simpa using hall
      simpa using timeAt_elapsed hq
  refine ⟨?_, ?_, ?_, ?_, ?_⟩
  · intro p hp
    have hfirst : Steps Anchored ([] ++ [p]) := h.sub hp
    exact timeAt_elapsed hfirst
  · intro pre p q hpre
    have hpos : 1000 < stride p q := (stride_bounds p q).1
    rw [(hpair hpre).1, (hpair hpre).2]
    exact ticks_mono (by omega)
  · intro pre p q hpre
    rw [(hpair hpre).1, (hpair hpre).2]
    exact ticks_add_le (stride_bounds p q).2
  · intro pre p q hpre hout
    rw [(hpair hpre).1, (hpair hpre).2, stride, if_neg hout]
    exact ticks_add_fallback (elapsed_nonneg _)
  · intro pre p mid q hpre hrun
    have hall : Steps Anchored ((pre ++ p :: mid) ++ [q]) := by
      exact h.sub (by simpa using hpre)
    rw [timeAt_elapsed hall, ← elapsed_inBounds hrun, List.append_assoc, List.cons_append,
      ← elapsed_append]

/-- A step that is neither in bounds nor told from a start is not one nominal frame. -/
theorem anchored_of_nominal {pre : List ℤ} {p q : ℤ} (h : Steps Anchored (pre ++ [p]))
    (hnominal : ¬ InBounds p q → timeAt (pre ++ [p]) q = timeAt pre p + ticks fallbackStepUs) :
    Anchored p q := by
  by_contra hnot
  unfold Anchored at hnot
  rw [not_or] at hnot
  have htime := hnominal hnot.2
  have hnext : timeAt (pre ++ [p]) q = ticks (max (elapsed (pre ++ [p]) + (q - p)) 0) := by
    rw [timeAt_eq, List.append_assoc, List.singleton_append, position_concat, if_neg hnot.1,
      position_eq h]
  have hpos := elapsed_nonneg (pre ++ [p])
  have hout := hnot.2
  rw [hnext, timeAt_elapsed h, ticks_fallbackStepUs] at htime
  unfold InBounds minStepUs maxStepUs at hout
  unfold ticks at htime
  omega

theorem anchored_of_lawful {pts : List ℤ} (h : Lawful pts) {pre : List ℤ} {p : ℤ}
    (hpre : pre ++ [p] <+: pts) : Steps Anchored (pre ++ [p]) := by
  induction pre using List.reverseRecOn generalizing p with
  | nil =>
    intro pre' a b hab
    have hlen := hab.length_le
    simp at hlen
  | append_singleton pre a ih =>
    have hprev : Steps Anchored (pre ++ [a]) := ih ((List.prefix_append _ _).trans hpre)
    refine hprev.concat (anchored_of_nominal hprev ?_)
    exact h.nominal pre a p (by simpa using hpre)

/-- The timeline keeps its law exactly where every step from a timestamp that is not positive is in
bounds. -/
theorem lawful_iff (pts : List ℤ) : Lawful pts ↔ Steps Anchored pts := by
  constructor
  · intro h pre p q hpre
    have hsnoc : pre ++ [p, q] = pre ++ [p] ++ [q] := by simp
    exact anchored_of_lawful h (hsnoc ▸ hpre) pre p q (by rw [hsnoc])
  · exact lawful_of_anchored

/-- A stall of ten seconds behind a frame that was captured at zero. -/
theorem not_lawful_zero : ¬ Lawful [0, 10000000] := by
  intro h
  have hnominal := h.nominal [] 0 10000000 (List.prefix_refl _) (by decide)
  exact absurd hnominal (by decide)

end Timeline

end Machino.Fmp4
