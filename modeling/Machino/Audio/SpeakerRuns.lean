import Mathlib.Algebra.BigOperators.Group.List.Basic
import Mathlib.Algebra.Order.Field.Rat
import Mathlib.Data.List.Basic
import Mathlib.Tactic.Linarith
import Mathlib.Tactic.Ring
import Machino.Audio.Speaker
import Machino.Basic.Runs

namespace Machino.Audio.Speaker

open scoped List
open Runs

/-- How long the clips play, in seconds. -/
def playingTime (queue : List Clip) : ℚ := (queue.map fun c => (c.pcm.length : ℚ) / c.rate).sum

structure Sound (s : State) : Prop where
  accounted : s.accepted = s.played + s.discarded + s.queue.length + s.phase.inHand
  clips : s.clips = .ofNat s.played
  dropped : s.dropped = .ofNat s.discarded
  bounded : playingTime s.queue ≤ kMaxQueueSeconds
  fresh : ∀ id, ¬ [Event.started id, .off, .accepted id] <+ s.log

/-- The samples of the clips that play at 8 kHz. -/
def slowSamples (queue : List Clip) : ℕ :=
  ((queue.filter (·.rate = 8000)).map (·.pcm.length)).sum

/-- A clip of 16 kHz is taken in only where the queue has room with the slow samples counted twice,
and none is started that was in hand when the speaker was switched off. -/
def Orderly (s : State) : Input → Prop
  | .play pcm rate => (s.check pcm rate).isOk = true → rate = 16000 →
      s.queuedSamples + slowSamples s.queue + pcm.length ≤ kMaxQueueSeconds * 16000
  | .loop ok =>
    match s.phase with
    | .opening _ => s.quit = false → ok = true → s.enabled = true → s.switchedOff = false
    | _ => True
  | .setEnabled _ | .shutdown => True

/-- What does not depend on where the loop is. -/
structure Base (s : State) : Prop where
  clips : s.clips = .ofNat s.played
  dropped : s.dropped = .ofNat s.discarded
  bounded : playingTime s.queue ≤ kMaxQueueSeconds
  fresh : ∀ id, ¬ [Event.started id, .off, .accepted id] <+ s.log
  samples : s.queuedSamples = (s.queue.map (·.pcm.length)).sum
  rates : ∀ c ∈ s.queue, c.rate = 8000 ∨ c.rate = 16000
  ids : ∀ id, Event.accepted id ∈ s.log → id < s.accepted
  queued : ∀ c ∈ s.queue, Event.accepted c.id ∈ s.log ∧ ¬ [Event.off, .accepted c.id] <+ s.log

structure Inv (s : State) : Prop extends Base s where
  accounted : s.accepted = s.played + s.discarded + s.queue.length + s.phase.inHand
  hand : ∀ c, s.phase = .exchanging c ∨ s.phase = .opening c → Event.accepted c.id ∈ s.log ∧
    ([Event.off, .accepted c.id] <+ s.log ↔ s.switchedOff = true)

theorem Inv.sound {s : State} (h : Inv s) : Sound s where
  accounted := h.accounted
  clips := h.clips
  dropped := h.dropped
  bounded := h.bounded
  fresh := h.fresh

theorem inv_boot (available enabled : Bool) : Inv (boot available enabled) where
  clips := rfl
  dropped := rfl
  bounded := by simp [playingTime, boot]
  fresh id h := absurd h (by simp [boot])
  samples := rfl
  rates c h := absurd h (by simp [boot])
  ids id h := absurd h (by simp [boot])
  queued c h := absurd h (by simp [boot])
  accounted := rfl
  hand c h := absurd h (by simp [boot])

/-- At 16 kHz a second has as many samples again as at 8 kHz. -/
theorem playingTime_eq {queue : List Clip} (h : ∀ c ∈ queue, c.rate = 8000 ∨ c.rate = 16000) :
    playingTime queue * 16000 =
      ((queue.map (·.pcm.length)).sum + slowSamples queue : ℕ) := by
  induction queue with
  | nil => simp [playingTime, slowSamples]
  | cons c queue ih =>
    have hrest := ih fun d hd => h d (List.mem_cons_of_mem c hd)
    unfold playingTime slowSamples at hrest ⊢
    rw [List.map_cons, List.sum_cons, List.map_cons, List.sum_cons, List.filter_cons, add_mul,
      hrest]
    rcases h c List.mem_cons_self with hrate | hrate
    · rw [if_pos (by simpa using hrate), List.map_cons, List.sum_cons, hrate]
      push_cast
      ring
    · rw [if_neg (by simp [hrate]), hrate]
      push_cast
      ring

section step

variable {s : State}

theorem check_ok {pcm : List Int16} {rate : ℤ} (h : (s.check pcm rate).isOk = true) :
    s.quit = false ∧ (rate = 8000 ∨ rate = 16000) ∧
      s.queuedSamples + pcm.length ≤ kMaxQueueSeconds * rate.toNat := by
  unfold check at h
  split_ifs at h with havailable hquit henabled hrate hempty hfull
  · exact absurd h (by simp [Except.isOk, Except.toBool])
  · exact absurd h (by simp [Except.isOk, Except.toBool])
  · exact absurd h (by simp [Except.isOk, Except.toBool])
  · exact absurd h (by simp [Except.isOk, Except.toBool])
  · exact absurd h (by simp [Except.isOk, Except.toBool])
  · exact absurd h (by simp [Except.isOk, Except.toBool])
  · exact ⟨by simpa using hquit, by tauto, not_lt.mp hfull⟩

/-- A clip more, at the end of the queue. -/
theorem playingTime_snoc {queue : List Clip} (h : ∀ c ∈ queue, c.rate = 8000 ∨ c.rate = 16000)
    {c : Clip} (hc : c.rate = 8000 ∨ c.rate = 16000) :
    playingTime (queue ++ [c]) ≤ kMaxQueueSeconds ↔
      (queue.map (·.pcm.length)).sum + slowSamples queue + c.pcm.length +
        (if c.rate = 8000 then c.pcm.length else 0) ≤ kMaxQueueSeconds * 16000 := by
  have hall : ∀ d ∈ queue ++ [c], d.rate = 8000 ∨ d.rate = 16000 := by
    intro d hd
    rcases List.mem_append.mp hd with hd | hd
    · exact h d hd
    · rw [List.mem_singleton.mp hd]
      exact hc
  have htime := playingTime_eq hall
  have hsamples : ((queue ++ [c]).map (·.pcm.length)).sum + slowSamples (queue ++ [c]) =
      (queue.map (·.pcm.length)).sum + slowSamples queue + c.pcm.length +
        (if c.rate = 8000 then c.pcm.length else 0) := by
    unfold slowSamples
    rw [List.map_append, List.sum_append, List.filter_append, List.map_append, List.sum_append]
    split_ifs with hrate
    · simp [hrate]
      omega
    · simp [hrate]
      omega
  rw [hsamples] at htime
  rw [← Nat.cast_le (α := ℚ), ← htime, Nat.cast_mul]
  constructor
  · intro hle
    push_cast
    linarith
  · intro hle
    push_cast at hle
    linarith

theorem slowSamples_le (queue : List Clip) :
    slowSamples queue ≤ (queue.map (·.pcm.length)).sum := by
  unfold slowSamples
  induction queue with
  | nil => simp
  | cons c queue ih =>
    rw [List.map_cons, List.sum_cons, List.filter_cons]
    split_ifs
    · rw [List.map_cons, List.sum_cons]
      omega
    · omega

/-- The bound that is checked suffices for a slow clip; a fast one may bring slow ones along. -/
theorem bounded_play (h : Base s) {pcm : List Int16} {rate : ℤ}
    (hcheck : (s.check pcm rate).isOk = true) :
    playingTime (s.queue ++ [{ id := s.accepted, pcm, rate }]) ≤ kMaxQueueSeconds ↔
      Orderly s (.play pcm rate) := by
  obtain ⟨-, hrate, hroom⟩ := check_ok hcheck
  rw [playingTime_snoc h.rates hrate, ← h.samples]
  unfold Orderly
  dsimp only
  have hslow := slowSamples_le s.queue
  rw [← h.samples] at hslow
  rcases hrate with rfl | rfl
  · have hcap : s.queuedSamples + pcm.length ≤ kMaxQueueSeconds * 8000 := hroom
    rw [if_pos rfl]
    refine ⟨fun _ _ hne => absurd hne (by decide), fun _ => ?_⟩
    omega
  · rw [if_neg (by decide), Nat.add_zero]
    exact ⟨fun hle _ _ => hle, fun hok => hok hcheck rfl⟩

theorem not_accepted (h : Base s) : ¬ Event.accepted s.accepted ∈ s.log :=
  fun hmem => absurd (h.ids _ hmem) (lt_irrefl _)

theorem inv_play (h : Inv s) {pcm : List Int16} {rate : ℤ}
    (hok : Orderly s (.play pcm rate)) : Inv (s.play pcm rate).2 := by
  unfold State.play
  cases hcheck : s.check pcm rate with
  | error e => exact h
  | ok u =>
    have hisOk : (s.check pcm rate).isOk = true := by rw [hcheck]; rfl
    obtain ⟨-, hrate, -⟩ := check_ok hisOk
    -- A clip that comes in is no older than what is in the log.
    have hskip : ∀ {id id' : ℕ}, [Event.off, .accepted id] <+ .accepted id' :: s.log ↔
        [Event.off, .accepted id] <+ s.log := by
      intro id id'
      rw [List.cons_sublist_cons']
      simp
    exact {
      clips := h.clips
      dropped := h.dropped
      bounded := (bounded_play h.toBase hisOk).mpr hok
      fresh := fun id hsub => by
        rw [List.cons_sublist_cons'] at hsub
        exact h.fresh id (hsub.resolve_right (by simp))
      samples := by
        simp [h.samples]
      rates := fun c hc => by
        rcases List.mem_append.mp hc with hc | hc
        · exact h.rates c hc
        · rw [List.mem_singleton.mp hc]
          exact hrate
      ids := fun id hid => by
        rcases List.mem_cons.mp hid with heq | hid
        · obtain rfl := Event.accepted.inj heq
          exact Nat.lt_succ_self _
        · exact (h.ids id hid).trans (Nat.lt_succ_self _)
      queued := fun c hc => by
        rw [hskip]
        rcases List.mem_append.mp hc with hc | hc
        · exact ⟨List.mem_cons_of_mem _ (h.queued c hc).1, (h.queued c hc).2⟩
        · rw [List.mem_singleton.mp hc]
          exact ⟨List.mem_cons_self, fun hsub =>
            not_accepted h.toBase (hsub.subset (by simp))⟩
      accounted := by
        have hold := h.accounted
        simp only [List.length_append, List.length_singleton]
        omega
      hand := fun c hc => by
        rw [hskip]
        exact ⟨List.mem_cons_of_mem _ (h.hand c hc).1, (h.hand c hc).2⟩ }

theorem inv_setEnabled (h : Inv s) (on : Bool) : Inv (s.setEnabled on) := by
  cases on with
  | true => exact { h with }
  | false =>
    exact {
      clips := h.clips
      dropped := by
        have hold := h.dropped
        simp [State.setEnabled, hold]
      bounded := by simp [State.setEnabled, playingTime]
      fresh := fun id hsub => by
        change [Event.started id, .off, .accepted id] <+ .off :: s.log at hsub
        rw [List.cons_sublist_cons'] at hsub
        exact h.fresh id (hsub.resolve_right (by simp))
      samples := rfl
      rates := fun c hc => absurd hc (by simp [State.setEnabled])
      ids := fun id hid => h.ids id (by simpa [State.setEnabled] using hid)
      queued := fun c hc => absurd hc (by simp [State.setEnabled])
      accounted := by
        have hold := h.accounted
        simp only [State.setEnabled, Bool.false_eq_true, if_false, List.length_nil]
        omega
      hand := fun c hc => by
        have hmem := (h.hand c hc).1
        refine ⟨List.mem_cons_of_mem _ hmem, fun _ => rfl, fun _ => ?_⟩
        exact List.cons_sublist_cons.mpr (List.singleton_sublist.mpr hmem) }

/-- A clip that was in hand is discarded. -/
theorem inv_discard (h : Base s)
    (hhand : s.accepted = s.played + s.discarded + s.queue.length + 1) : Inv s.discard where
  clips := h.clips
  dropped := by simp [State.discard, h.dropped]
  bounded := h.bounded
  fresh := h.fresh
  samples := h.samples
  rates := h.rates
  ids := h.ids
  queued := h.queued
  accounted := by
    simp only [State.discard, Phase.inHand]
    omega
  hand c hc := absurd hc (by simp [State.discard])

/-- A clip is started only where it was accepted since the speaker was last switched off. -/
theorem inv_start (h : Base s)
    (hhand : s.accepted = s.played + s.discarded + s.queue.length + 1) {c : Clip}
    (hfresh : s.enabled = true → ¬ [Event.off, .accepted c.id] <+ s.log) : Inv (s.start c) := by
  unfold State.start
  cases henabled : s.enabled with
  | false => exact inv_discard h hhand
  | true =>
    exact {
      clips := h.clips
      dropped := h.dropped
      bounded := h.bounded
      fresh := fun id hsub => by
        change [Event.started id, .off, .accepted id] <+ .started c.id :: s.log at hsub
        rw [List.cons_sublist_cons'] at hsub
        rcases hsub with hsub | ⟨heq, hsub⟩
        · exact h.fresh id hsub
        · obtain rfl := Event.started.inj heq
          exact hfresh henabled hsub
      samples := h.samples
      rates := h.rates
      ids := fun id hid => h.ids id (by simpa using hid)
      queued := fun d hd => by
        obtain ⟨hmem, hold⟩ := h.queued d hd
        refine ⟨List.mem_cons_of_mem _ hmem, fun hsub => hold ?_⟩
        change [Event.off, .accepted d.id] <+ .started c.id :: s.log at hsub
        rw [List.cons_sublist_cons'] at hsub
        exact hsub.resolve_right (by simp)
      accounted := by simpa [Phase.inHand] using hhand
      hand := fun d hd => absurd hd (by simp) }

theorem Base.tail (h : Base s) {c : Clip} {queue : List Clip} (hqueue : s.queue = c :: queue) :
    Base { s with
      queue, queuedSamples := s.queuedSamples - min s.queuedSamples c.pcm.length
      switchedOff := false } := by
  have hmem : ∀ d ∈ queue, d ∈ s.queue := fun d hd => by
    rw [hqueue]
    exact List.mem_cons_of_mem c hd
  have hc : c ∈ s.queue := by simp [hqueue]
  -- Only the time of what is left is bounded again.
  have hplays : (0 : ℚ) ≤ (c.pcm.length : ℚ) / c.rate := by
    refine div_nonneg (Nat.cast_nonneg _) (Int.cast_nonneg ?_)
    rcases h.rates c hc with hrate | hrate
    · rw [hrate]
      decide
    · rw [hrate]
      decide
  exact {
    clips := h.clips
    dropped := h.dropped
    bounded := by
      have hall := h.bounded
      rw [hqueue, playingTime, List.map_cons, List.sum_cons] at hall
      exact (le_add_of_nonneg_left hplays).trans hall
    fresh := h.fresh
    samples := by
      have hall := h.samples
      rw [hqueue, List.map_cons, List.sum_cons] at hall
      dsimp only
      omega
    rates := fun d hd => h.rates d (hmem d hd)
    ids := h.ids
    queued := fun d hd => h.queued d (hmem d hd) }

theorem inv_take (h : Inv s) {c : Clip} {queue : List Clip} (hqueue : s.queue = c :: queue)
    (hphase : s.phase.inHand = 0) : Inv (s.take c queue) := by
  have htail := h.toBase.tail hqueue
  have hold : s.accepted = s.played + s.discarded + queue.length + 1 := by
    have hall := h.accounted
    rw [hqueue, hphase, List.length_cons] at hall
    omega
  obtain ⟨hmem, hfresh⟩ := h.queued c (by simp [hqueue])
  have hhand : Event.accepted c.id ∈ s.log ∧
      ([Event.off, .accepted c.id] <+ s.log ↔ false = true) := ⟨hmem, by simpa using hfresh⟩
  unfold State.take
  dsimp only
  cases hdev : s.dev with
  | none =>
    exact { htail with
      accounted := hold
      hand := fun d hd => by
        obtain rfl := Phase.opening.inj (hd.resolve_left (by simp))
        exact hhand }
  | some rate =>
    dsimp only
    split_ifs with hrate
    · refine inv_start ?_ hold fun _ => hfresh
      exact { htail with }
    · exact { htail with
        accounted := hold
        hand := fun d hd => by
          obtain rfl := Phase.exchanging.inj (hd.resolve_right (by simp [State.closeLocked]))
          exact hhand }

theorem inv_finish (h : Base s)
    (hhand : s.accepted = s.played + s.discarded + s.queue.length + 1) (outcome : Outcome) :
    Inv (s.finish outcome) := by
  cases outcome with
  | failed =>
    exact { inv_discard h hhand with
      hand := fun c hc => absurd hc (by simp [State.finish, State.closeLocked]) }
  | cut => exact { inv_discard h hhand with }
  | played =>
    exact {
      clips := by simp [State.finish, h.clips]
      dropped := h.dropped
      bounded := h.bounded
      fresh := h.fresh
      samples := h.samples
      rates := h.rates
      ids := h.ids
      queued := h.queued
      accounted := by
        simp only [State.finish, Phase.inHand]
        omega
      hand := fun c hc => absurd hc (by simp [State.finish]) }

/-- Where the loop goes on with as much in hand as before. -/
theorem Inv.goOn (h : Inv s) {phase : Phase} (hsame : phase.inHand = s.phase.inHand)
    (hhand : ∀ c, phase = .exchanging c ∨ phase = .opening c →
      s.phase = .exchanging c ∨ s.phase = .opening c) : Inv { s with phase } :=
  { h with
    accounted := by
      rw [hsame]
      exact h.accounted
    hand := fun c hc => h.hand c (hhand c hc) }

theorem inv_loop (h : Inv s) (hquit : s.quit = false) {ok : Bool} (hok : Orderly s (.loop ok)) :
    Inv (s.loop ok) := by
  have hall := h.accounted
  unfold State.loop
  unfold Orderly at hok
  cases hphase : s.phase with
  | waiting =>
    rw [hphase] at hall
    rw [if_neg (by simp [hquit])]
    cases hqueue : s.queue with
    | nil =>
      dsimp only
      split_ifs
      · exact { h with
          accounted := hall
          hand := fun c hc => absurd hc (by simp [State.closeLocked]) }
      · exact h
    | cons c queue => exact inv_take h hqueue (by rw [hphase]; rfl)
  | exchanging c =>
    exact h.goOn (by rw [hphase]; rfl) fun d hd => .inl (by
      obtain rfl := Phase.opening.inj (hd.resolve_left (by simp))
      exact hphase)
  | opening c =>
    rw [hphase] at hall hok
    dsimp only
    cases ok with
    | false => exact { inv_discard h.toBase hall with }
    | true =>
      have hbase : Base { s with dev := some c.rate, opened := true, lastError := "" } :=
        { h.toBase with }
      refine inv_start hbase hall fun henabled hsub => ?_
      -- Switched off since it was taken, it may not be started by a device that opens now.
      have hoff := (h.hand c (.inr hphase)).2.mp hsub
      exact absurd (hoff.symm.trans (hok hquit rfl henabled)) (by simp)
  | writing c off =>
    dsimp only
    split_ifs
    · exact h.goOn (by rw [hphase]; rfl) fun d hd => absurd hd (by simp)
    · exact h.goOn (by rw [hphase]; rfl) fun d hd => absurd hd (by simp)
    · exact h.goOn (by rw [hphase]; rfl) fun d hd => absurd hd (by simp)
    · exact h.goOn (by rw [hphase]; rfl) fun d hd => absurd hd (by simp)
  | finishing c outcome =>
    rw [hphase] at hall
    exact inv_finish h.toBase hall outcome
  | closing => exact h.goOn (by rw [hphase]; rfl) fun d hd => absurd hd (by simp)
  | ended => exact h

theorem quit_start (c : Clip) : (s.start c).quit = s.quit := by
  unfold State.start
  split <;> rfl

theorem quit_take (c : Clip) (queue : List Clip) : (s.take c queue).quit = s.quit := by
  unfold State.take
  dsimp only
  split
  · rfl
  · split_ifs
    · rw [quit_start]
    · rfl

theorem quit_loop (ok : Bool) : (s.loop ok).quit = s.quit := by
  unfold State.loop
  cases hphase : s.phase with
  | waiting =>
    cases hqueue : s.queue with
    | nil =>
      dsimp only
      split_ifs <;> rfl
    | cons c queue =>
      dsimp only
      split_ifs
      · rfl
      · rw [quit_take]
  | exchanging c => rfl
  | opening c =>
    dsimp only
    split_ifs
    · rfl
    · rw [quit_start]
  | writing c off =>
    dsimp only
    split_ifs <;> rfl
  | finishing c outcome => cases outcome <;> rfl
  | closing => rfl
  | ended => rfl

theorem quit_step (h : s.quit = true) (i : Input) : (step s i).quit = true := by
  cases i with
  | play pcm rate =>
    rw [step, State.play]
    split
    · exact h
    · exact h
  | setEnabled on => cases on <;> exact h
  | shutdown => rfl
  | loop ok => exact (quit_loop ok).trans h

theorem inv_step (h : s.quit = true ∨ Inv s) {i : Input} (hok : Orderly s i) :
    (step s i).quit = true ∨ Inv (step s i) := by
  rcases h with h | h
  · exact .inl (quit_step h i)
  · cases i with
    | play pcm rate => exact .inr (inv_play h hok)
    | setEnabled on => exact .inr (inv_setEnabled h on)
    | shutdown => exact .inl rfl
    | loop ok =>
      cases hquit : s.quit with
      | true => exact .inl (quit_step hquit (.loop ok))
      | false => exact .inr (inv_loop h hquit hok)

/-- A step that is not orderly is seen at once. -/
theorem not_sound_step (h : s.quit = true ∨ Inv s) {i : Input} (hbad : ¬ Orderly s i) :
    ¬ ((step s i).quit = false → Sound (step s i)) := by
  intro hsound
  cases i with
  | play pcm rate =>
    have hcheck : (s.check pcm rate).isOk = true := by
      by_contra hrefused
      exact hbad fun hok => absurd hok hrefused
    have hquit := (check_ok hcheck).1
    have hinv : Inv s := h.resolve_left (by simp [hquit])
    refine hbad ((bounded_play hinv.toBase hcheck).mp ?_)
    rw [step, State.play] at hsound
    cases hres : s.check pcm rate with
    | error e => simp [hres, Except.isOk, Except.toBool] at hcheck
    | ok u =>
      rw [hres] at hsound
      exact (hsound hquit).bounded
  | setEnabled on => exact hbad trivial
  | shutdown => exact hbad trivial
  | loop ok =>
    unfold Orderly at hbad
    cases hphase : s.phase with
    | opening c =>
      rw [hphase] at hbad
      simp only [Classical.not_imp, Bool.not_eq_false] at hbad
      obtain ⟨hquit, rfl, henabled, hoff⟩ := hbad
      have hinv : Inv s := h.resolve_left (by simp [hquit])
      -- The clip in hand is older than the last switching off, and starts all the same.
      have hsub := (hinv.hand c (.inr hphase)).2.mpr hoff
      have hlog : (step s (.loop true)).log = .started c.id :: s.log := by
        simp [step, State.loop, State.start, hphase, henabled]
      refine (hsound ((quit_loop true).trans hquit)).fresh c.id ?_
      rw [hlog]
      exact List.cons_sublist_cons.mpr hsub
    | waiting | exchanging | writing | finishing | closing | ended =>
      rw [hphase] at hbad
      exact hbad trivial

end step

/-- Before a shutdown every clip is accounted for, the queue is bounded and what was accepted
before the speaker was switched off is not started, just as long as every step is orderly. -/
theorem sound_iff (available enabled : Bool) (is : List Input) :
    Always step (fun s => s.quit = false → Sound s) (boot available enabled) is ↔
      Along step Orderly (boot available enabled) is := by
  refine always_iff_along (P := fun s => s.quit = true ∨ Inv s) (fun _ _ h hok => inv_step h hok)
    ?_ (fun _ _ h hbad => not_sound_step h hbad) (.inr (inv_boot available enabled))
  intro s h hquit
  exact (h.resolve_left (by simp [hquit])).sound

/-- A clip is in hand while the speaker is switched off and on again: it is played. -/
theorem not_sound_reenabled :
    ¬ Always step (fun s => s.quit = false → Sound s) (boot true true)
      [.play [0] 8000, .loop true, .setEnabled false, .setEnabled true, .loop true] := by
  intro h
  exact (h _ List.prefix_rfl rfl).fresh 0 (by decide)

end Machino.Audio.Speaker
