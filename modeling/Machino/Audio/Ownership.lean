import Machino.Audio.AudioService

namespace Machino.Audio

open Runs Machino.Stream

namespace Capture

/-- No device but this one is open. -/
def OnlyOpen (c : Capture) (dev : Option ℕ) : Prop := ∀ i, c.devices[i]? = some true → dev = some i

/-- No thread but this one has not ended. -/
def OnlyAlive (c : Capture) (t : Option ℕ) : Prop :=
  ∀ i th, c.threads[i]? = some th → th.phase ≠ .ended → t = some i

/-- Whether the thread captures from the device. -/
def CapturesFrom (c : Capture) (t d : ℕ) : Prop :=
  ∃ th, c.threads[t]? = some th ∧ (th.phase = .starting ∨ th.phase = .capturing (some d))

/-- Nothing runs, one thread captures, or one closes the device it has taken with it. -/
inductive Shape (down : Bool) (c : Capture) : Prop
  | idle : c.running = false → c.inDev = none → c.OnlyOpen none → c.OnlyAlive none → Shape down c
  | capturing (t d : ℕ) : c.running = true → c.inDev = some d → c.devices[d]? = some true →
      c.CapturesFrom t d → (down = false → c.thread = some t) → c.OnlyOpen (some d) →
      c.OnlyAlive (some t) → Shape down c
  | closing (t d : ℕ) (th : CaptureThread) : c.running = false → c.inDev = none →
      c.threads[t]? = some th → th.phase = .closing d → (down = false → c.thread = some t) →
      c.OnlyOpen (some d) → c.OnlyAlive (some t) → Shape down c

end Capture

/-- Some sink is neither closed nor unsubscribed. -/
def Heard (h : StreamHub) : Prop := ∃ c ∈ h.subscribers, c.attached = true ∧ c.sink.closed = false

structure Inv (s : AudioService) : Prop where
  shape : s.toCapture.Shape s.shutdown
  heard : Heard s.hub → s.running = true ∧ s.cfg.enabled = true ∧ s.shutdown = false
  quit : s.quit = s.shutdown
  joining : s.joining = true → s.running = false ∧ s.cfg.enabled = true ∧ s.shutdown = false

theorem closed_push (au : AccessUnit) (s : Sink) : (s.push au).closed = s.closed := by
  unfold Sink.push Sink.makeRoom
  split_ifs <;> rfl

theorem closed_pop (s : Sink) : s.pop.2.closed = s.closed := by
  have hp := s.popped_pop
  generalize s.pop = r at hp
  cases hp <;> rfl

theorem pop_subscriber (c : Subscriber) :
    c.pop.attached = c.attached ∧ c.pop.sink.closed = c.sink.closed := by
  have hc := closed_pop c.sink
  unfold Subscriber.pop
  split <;> rename_i heq <;> rw [heq] at hc <;> exact ⟨rfl, hc⟩

/-- What only closes and detaches sinks makes none heard. -/
theorem heard_of_modify {h : StreamHub} {k : ℕ} {f : Subscriber → Subscriber}
    (hf : ∀ c, (f c).attached = true → (f c).sink.closed = false →
      c.attached = true ∧ c.sink.closed = false)
    (hh : Heard { h with subscribers := h.subscribers.modify k f }) : Heard h := by
  obtain ⟨c, hc, ha, ho⟩ := hh
  obtain ⟨d, hd, rfl | rfl⟩ := StreamHub.exists_of_mem_modify hc
  · exact ⟨c, hd, ha, ho⟩
  · exact ⟨d, hd, hf d ha ho⟩

theorem heard_of_publish {h : StreamHub} {au : AccessUnit} (hh : Heard (h.publish au)) :
    Heard h := by
  obtain ⟨c, hc, ha, ho⟩ := hh
  obtain ⟨d, hd, rfl⟩ := List.mem_map.mp hc
  unfold Subscriber.publish at ha ho
  split at ha
  · rename_i hatt
    rw [if_pos hatt] at ho
    exact ⟨d, hd, hatt, (closed_push au d.sink).symm.trans ho⟩
  · rename_i hatt
    exact absurd ha hatt

theorem not_heard_closeAll (h : StreamHub) : ¬ Heard h.closeAll := by
  rintro ⟨c, hc, ha, ho⟩
  obtain ⟨d, hd, rfl⟩ := List.mem_map.mp hc
  split at ha
  · exact absurd ha Bool.false_ne_true
  · rename_i hatt
    exact hatt ha

theorem not_heard_of_consumers {h : StreamHub} (h0 : h.consumers = 0) : ¬ Heard h := by
  rintro ⟨c, hc, ha, -⟩
  exact List.countP_eq_zero.mp h0 c hc ha

namespace Capture

variable {c : Capture} {down : Bool}

/-- Where the joined thread has ended nothing is open and no thread is left. -/
theorem Shape.joined (h : c.Shape down) (hr : c.running = false) (hdown : down = false)
    (hthread : ∀ t th, c.thread = some t → c.threads[t]? = some th → th.phase = .ended) :
    c.inDev = none ∧ c.OnlyOpen none ∧ c.OnlyAlive none := by
  cases h with
  | idle _ hin hopen halive => exact ⟨hin, hopen, halive⟩
  | capturing t d hrun =>
    rw [hrun] at hr
    exact absurd hr.symm Bool.false_ne_true
  | closing t d th _ _ hth hphase hhandle =>
    have hend := hthread t th (hhandle hdown) hth
    rw [hphase] at hend
    cases hend

theorem OnlyOpen.snoc (h : c.OnlyOpen none) {i : ℕ} (hi : (c.devices ++ [true])[i]? = some true) :
    c.devices.length = i := by
  rcases Runs.getElem?_concat_eq_some hi with hold | ⟨heq, -⟩
  · exact absurd (h i hold) nofun
  · exact heq

theorem OnlyAlive.snoc (h : c.OnlyAlive none) {th' : CaptureThread} {i : ℕ} {th : CaptureThread}
    (hi : (c.threads ++ [th'])[i]? = some th) (hth : th.phase ≠ .ended) : c.threads.length = i := by
  rcases Runs.getElem?_concat_eq_some hi with hold | ⟨heq, -⟩
  · exact absurd (h i th hold hth) nofun
  · exact heq

theorem OnlyAlive.eq {t t' : ℕ} {th : CaptureThread} (h : c.OnlyAlive (some t'))
    (hth : c.threads[t]? = some th) (hphase : th.phase ≠ .ended) : t' = t :=
  Option.some.inj (h t th hth hphase)

theorem OnlyAlive.set {t : ℕ} {th' : CaptureThread} (h : c.OnlyAlive (some t)) {i : ℕ}
    {th : CaptureThread} (hi : (c.threads.set t th')[i]? = some th) (hth : th.phase ≠ .ended) :
    some t = some i := by
  by_cases hti : t = i
  · rw [hti]
  · rw [List.getElem?_set_ne hti] at hi
    exact h i th hi hth

/-- After the end of the last thread none is left. -/
theorem OnlyAlive.set_ended {t : ℕ} {th' : CaptureThread} (h : c.OnlyAlive (some t))
    (hend : th'.phase = .ended) {i : ℕ} {th : CaptureThread}
    (hi : (c.threads.set t th')[i]? = some th) : th.phase = .ended := by
  by_contra hth
  have hti := Option.some.inj (h.set hi hth)
  rw [← hti, List.getElem?_set, if_pos rfl] at hi
  split at hi
  · rw [← Option.some.inj hi] at hth
    exact hth hend
  · cases hi

theorem OnlyOpen.set {d : ℕ} (h : c.OnlyOpen (some d)) (i : ℕ) :
    (c.devices.set d false)[i]? ≠ some true := by
  intro hi
  rw [List.getElem?_set] at hi
  split_ifs at hi with hdi hlt
  · exact absurd (Option.some.inj hi) Bool.false_ne_true
  · exact hdi (Option.some.inj (h i hi))

end Capture

variable {s : AudioService}

theorem inv_openDevice (granted : Bool) (hr : s.running = false) (hin : s.inDev = none)
    (hopen : s.OnlyOpen none) (halive : s.OnlyAlive none) (hen : s.cfg.enabled = true)
    (hdown : s.shutdown = false) (hquit : s.quit = s.shutdown) (hj : s.joining = false)
    (hh : ¬ Heard s.hub) : Inv (s.openDevice granted).2 := by
  unfold AudioService.openDevice
  split
  · refine ⟨?_, fun _ => ⟨rfl, hen, hdown⟩, hdown.symm, fun hjoin => ?_⟩
    · refine .capturing s.threads.length s.devices.length rfl rfl ?_ ⟨{}, ?_, .inl rfl⟩
        (fun _ => rfl) ?_ fun i th hi hth => congrArg some (halive.snoc hi hth)
      · dsimp only [AudioService.subscribe]
        rw [hin]
        exact List.getElem?_concat_length
      · exact List.getElem?_concat_length
      · intro i hi
        dsimp only [AudioService.subscribe] at hi
        rw [hin] at hi
        exact congrArg some (hopen.snoc hi)
    · exact absurd (hj.symm.trans hjoin) Bool.false_ne_true
  · refine ⟨.idle hr hin hopen halive, fun hheard => absurd hheard hh, hquit, fun hjoin => ?_⟩
    exact absurd (hj.symm.trans hjoin) Bool.false_ne_true

/-- What the join of an ended thread leaves. -/
theorem Inv.joined (h : Inv s) (hr : s.running = false) (hdown : s.shutdown = false)
    (hend : ∀ t, s.thread = some t → s.hasEnded t = true) :
    s.inDev = none ∧ s.OnlyOpen none ∧ s.OnlyAlive none := by
  refine h.shape.joined hr hdown fun t th ht hth => ?_
  have hphase := hend t ht
  unfold AudioService.hasEnded at hphase
  rw [hth] at hphase
  simpa using hphase

theorem Inv.not_heard (h : Inv s) (hr : s.running = false) : ¬ Heard s.hub := by
  intro hh
  exact absurd ((h.heard hh).1.symm.trans hr) Bool.true_eq_false.mp

/-- What a call of `listen` comes to: it is refused, joins those who listen, waits, or opens a
device where the last thread has ended. -/
inductive Listened (granted : Bool) (s : AudioService) : AudioService → Prop
  | refused : Listened granted s s
  | subscribed : s.running = true → s.cfg.enabled = true → s.shutdown = false →
      Listened granted s s.subscribe.2
  | waits : s.running = false → s.cfg.enabled = true → s.shutdown = false →
      Listened granted s { s with joining := true }
  | opens : s.running = false → s.cfg.enabled = true → s.shutdown = false →
      (∀ t, s.thread = some t → s.hasEnded t = true) →
      Listened granted s (AudioService.openDevice granted { s with thread := none }).2

theorem listened_listen (granted : Bool) (s : AudioService) :
    Listened granted s (s.listen granted).2 := by
  unfold AudioService.listen
  split_ifs with hdown hinput hen hrun
  · exact .refused
  · exact .refused
  · exact .refused
  · exact .subscribed hrun (by simpa using hen) (Bool.eq_false_iff.mpr hdown)
  · have hen' : s.cfg.enabled = true := by simpa using hen
    have hdown' := Bool.eq_false_iff.mpr hdown
    have hrun' := Bool.eq_false_iff.mpr hrun
    split
    · rename_i hthread
      have hs : { s with thread := none } = s := by rw [← hthread]
      have hopens := @Listened.opens granted s hrun' hen' hdown' (by simp [hthread])
      rwa [hs] at hopens
    · rename_i t hthread
      split_ifs with hend
      · exact .opens hrun' hen' hdown' (by simp [hthread, hend])
      · exact .waits hrun' hen' hdown'

theorem inv_listen (granted : Bool) (h : Inv s) (hj : s.joining = false) :
    Inv (s.listen granted).2 := by
  have hl := listened_listen granted s
  generalize (s.listen granted).2 = s' at hl
  cases hl with
  | refused => exact h
  | subscribed hrun hen hdown => exact ⟨h.shape, fun _ => ⟨hrun, hen, hdown⟩, h.quit, h.joining⟩
  | waits hrun hen hdown => exact ⟨h.shape, h.heard, h.quit, fun _ => ⟨hrun, hen, hdown⟩⟩
  | opens hrun hen hdown hend =>
    obtain ⟨hin, hopen, halive⟩ := h.joined hrun hdown hend
    exact inv_openDevice granted hrun hin hopen halive hen hdown h.quit hj (h.not_heard hrun)

theorem inv_listenJoined (granted : Bool) (h : Inv s) (hj : s.joining = true)
    (hend : s.thread.any s.hasEnded = true) : Inv (s.listenJoined granted).2 := by
  obtain ⟨hrun, hen, hdown⟩ := h.joining hj
  have hall : ∀ t, s.thread = some t → s.hasEnded t = true := by
    intro t ht
    simpa [ht] using hend
  obtain ⟨hin, hopen, halive⟩ := h.joined hrun hdown hall
  exact inv_openDevice granted hrun hin hopen halive hen hdown h.quit rfl (h.not_heard hrun)

theorem inv_setEnabled (on : Bool) (h : Inv s) (hj : s.joining = false) :
    Inv (s.setEnabled on) := by
  refine ⟨h.shape, fun hh => ?_, h.quit, fun hjoin => ?_⟩
  · cases on with
    | false => exact absurd hh (not_heard_closeAll s.hub)
    | true =>
      obtain ⟨hrun, -, hdown⟩ := h.heard hh
      exact ⟨hrun, rfl, hdown⟩
  · exact absurd (hj.symm.trans hjoin) Bool.false_ne_true

theorem inv_setSampleRate (hz : ℕ) (h : Inv s) : Inv (s.setSampleRate hz) := by
  unfold AudioService.setSampleRate
  split
  · exact h
  · exact ⟨h.shape, h.heard, h.quit, h.joining⟩

theorem inv_shutdownLocked (h : Inv s) (hj : s.joining = false) : Inv s.shutdownLocked := by
  refine ⟨?_, fun hh => absurd hh (not_heard_closeAll s.hub), rfl, fun hjoin => ?_⟩
  · cases h.shape with
    | idle hr hin hopen halive => exact .idle hr hin hopen halive
    | capturing t d hr hin hdev hth _ hopen halive =>
      exact .capturing t d hr hin hdev hth nofun hopen halive
    | closing t d th hr hin hth hphase _ hopen halive =>
      exact .closing t d th hr hin hth hphase nofun hopen halive
  · exact absurd (hj.symm.trans hjoin) Bool.false_ne_true

theorem inv_captureStart (t : ℕ) (h : Inv s) : Inv (s.captureStart t) := by
  unfold AudioService.captureStart
  split
  · rename_i graceMs idleSince hth
    refine ⟨?_, h.heard, h.quit, h.joining⟩
    cases h.shape with
    | idle _ _ _ halive => exact absurd (halive t _ hth nofun) nofun
    | capturing t' d hr hin hdev hcap hhandle hopen halive =>
      obtain rfl := halive.eq hth nofun
      refine .capturing t' d hr hin hdev ⟨_, List.getElem?_set_self ?_, .inr ?_⟩ hhandle hopen
        fun i th => halive.set
      · exact (List.getElem?_eq_some_iff.mp hth).1
      · rw [hin]
    | closing t' d th hr hin hth' hphase _ _ halive =>
      obtain rfl := halive.eq hth nofun
      rw [hth] at hth'
      rw [← Option.some.inj hth'] at hphase
      cases hphase
  · exact h

theorem inv_captureDecide (t : ℕ) (now : ℤ) (h : Inv s) (hj : s.joining = false) :
    Inv (s.captureDecide t now) := by
  unfold AudioService.captureDecide
  split
  · rename_i dev graceMs idleSince hth
    have hlt := (List.getElem?_eq_some_iff.mp hth).1
    cases h.shape with
    | idle _ _ _ halive => exact absurd (halive t _ hth nofun) nofun
    | closing t' d th hr hin hth' hphase _ _ halive =>
      obtain rfl := halive.eq hth nofun
      rw [hth] at hth'
      rw [← Option.some.inj hth'] at hphase
      cases hphase
    | capturing t' d hr hin hdev hcap hhandle hopen halive =>
      obtain rfl := halive.eq hth nofun
      dsimp only
      split
      · rename_i hstop
        refine ⟨?_, fun hh => ?_, h.quit, fun hjoin => ?_⟩
        · refine .closing t' d _ rfl rfl (List.getElem?_set_self hlt) ?_ hhandle hopen
            fun i th => halive.set
          rw [hin]
          rfl
        · -- whoever is heard keeps the loop from stopping
          obtain ⟨-, hen, hdown⟩ := h.heard hh
          have hgo : (s.quit || !s.cfg.enabled) = false := by rw [h.quit, hdown, hen]; rfl
          have hcons : s.hub.consumers ≠ 0 := fun h0 => not_heard_of_consumers h0 hh
          rw [AudioService.stopDecision, hgo, if_neg Bool.false_ne_true, if_neg hcons] at hstop
          exact absurd hstop Bool.false_ne_true
        · exact absurd (hj.symm.trans hjoin) Bool.false_ne_true
      · refine ⟨?_, h.heard, h.quit, h.joining⟩
        refine .capturing t' d hr hin hdev ⟨_, List.getElem?_set_self hlt, .inr ?_⟩ hhandle hopen
          fun i th => halive.set
        obtain ⟨th, hth', hphase⟩ := hcap
        rw [hth] at hth'
        rw [← Option.some.inj hth'] at hphase
        exact hphase.resolve_left nofun
  · exact h

theorem inv_captureClose (t : ℕ) (h : Inv s) : Inv (s.captureClose t) := by
  unfold AudioService.captureClose
  split
  · rename_i d' graceMs idleSince hth
    refine ⟨?_, h.heard, h.quit, h.joining⟩
    cases h.shape with
    | idle _ _ _ halive => exact absurd (halive t _ hth nofun) nofun
    | capturing t' d _ _ _ hcap _ _ halive =>
      obtain rfl := halive.eq hth nofun
      obtain ⟨th, hth', hphase⟩ := hcap
      rw [hth] at hth'
      rw [← Option.some.inj hth'] at hphase
      obtain hphase | hphase := hphase <;> cases hphase
    | closing t' d th hr hin hth' hphase _ hopen halive =>
      obtain rfl := halive.eq hth nofun
      rw [hth] at hth'
      rw [← Option.some.inj hth'] at hphase
      obtain rfl : d' = d := Phase.closing.inj hphase
      refine .idle hr hin ?_ ?_
      · exact fun i hi => absurd hi (hopen.set i)
      · exact fun i th hi hne => absurd (halive.set_ended rfl hi) hne
  · exact h

theorem inv_locked {f : AudioService → AudioService} (h : Inv s)
    (hf : s.joining = false → Inv (f s)) : Inv (s.locked f) := by
  unfold AudioService.locked
  split
  · exact h
  · rename_i hj
    exact hf (Bool.eq_false_iff.mpr hj)

/-- A step that makes no sink heard and touches nothing but the hub. -/
theorem inv_hub {h' : StreamHub} (h : Inv s) (hh : Heard h' → Heard s.hub) :
    Inv { s with hub := h' } :=
  ⟨h.shape, fun hheard => h.heard (hh hheard), h.quit, h.joining⟩

theorem inv_step (a : Step) (h : Inv s) : Inv (s.step a) := by
  cases a with
  | listen granted => exact inv_locked (f := fun s => (s.listen granted).2) h (inv_listen granted h)
  | listenJoined granted =>
    unfold AudioService.step
    dsimp only
    split
    · rename_i hjoin
      rw [Bool.and_eq_true] at hjoin
      exact inv_listenJoined granted h hjoin.1 hjoin.2
    · exact h
  | close k => exact inv_hub h (heard_of_modify fun c _ ho => absurd ho.symm Bool.false_ne_true)
  | erase k => exact inv_hub h (heard_of_modify fun c ha _ => absurd ha Bool.false_ne_true)
  | pop k =>
    refine inv_hub h (heard_of_modify fun c ha ho => ?_)
    obtain ⟨hatt, hclosed⟩ := pop_subscriber c
    exact ⟨hatt.symm.trans ha, hclosed.symm.trans ho⟩
  | setEnabled on => exact inv_locked h (inv_setEnabled on h)
  | setSampleRate hz => exact inv_locked h fun _ => inv_setSampleRate hz h
  | shutdown => exact inv_locked h (inv_shutdownLocked h)
  | captureStart t => exact inv_locked h fun _ => inv_captureStart t h
  | publish au => exact inv_hub h heard_of_publish
  | captureDecide t now => exact inv_locked h (inv_captureDecide t now h)
  | captureClose t => exact inv_captureClose t h

structure Owned (s : AudioService) : Prop where
  oneOpen : ∀ i j : ℕ, s.devices[i]? = some true → s.devices[j]? = some true → i = j
  captured : Heard s.hub → ∃ t d, s.CapturesFrom t d ∧ s.devices[d]? = some true
  released : s.shutdown = true →
    (∀ (t : ℕ) (th : CaptureThread), s.threads[t]? = some th → th.phase = .ended) →
    ∀ i : ℕ, s.devices[i]? ≠ some true

theorem Inv.owned (h : Inv s) : Owned s := by
  cases h.shape with
  | idle hr _ hopen _ =>
    exact ⟨fun i _ hi => absurd (hopen i hi) nofun, fun hh => absurd hh (h.not_heard hr),
      fun _ _ i hi => absurd (hopen i hi) nofun⟩
  | capturing t d _ _ hdev hcap _ hopen _ =>
    refine ⟨fun i j hi hj => ?_, fun _ => ⟨t, d, hcap, hdev⟩, fun _ hend => ?_⟩
    · exact Option.some.inj ((hopen i hi).symm.trans (hopen j hj))
    · obtain ⟨th, hth, hphase⟩ := hcap
      rw [hend t th hth] at hphase
      obtain hphase | hphase := hphase <;> cases hphase
  | closing t d th hr _ hth hphase _ hopen _ =>
    refine ⟨fun i j hi hj => ?_, fun hh => absurd hh (h.not_heard hr), fun _ hend => ?_⟩
    · exact Option.some.inj ((hopen i hi).symm.trans (hopen j hj))
    · rw [hend t th hth] at hphase
      cases hphase

/-- Whenever the step opens a device, all that were opened before are closed. -/
def OpensAfterClose (s : AudioService) (a : Step) : Prop :=
  s.devices.length < (s.step a).devices.length → ∀ i : ℕ, s.devices[i]? ≠ some true

theorem opensAfterClose_of_eq {a : Step} (h : (s.step a).devices = s.devices) :
    OpensAfterClose s a := by
  intro hlt
  rw [h] at hlt
  exact absurd hlt (Nat.lt_irrefl _)

theorem devices_locked {f : AudioService → AudioService} (hf : (f s).devices = s.devices) :
    (s.locked f).devices = s.devices := by
  unfold AudioService.locked
  split
  · rfl
  · exact hf

theorem devices_captureStart (t : ℕ) (s : AudioService) :
    (s.captureStart t).devices = s.devices := by
  unfold AudioService.captureStart
  split <;> rfl

theorem devices_captureDecide (t : ℕ) (now : ℤ) (s : AudioService) :
    (s.captureDecide t now).devices = s.devices := by
  unfold AudioService.captureDecide
  split
  · dsimp only
    split <;> rfl
  · rfl

theorem Inv.opensAfterClose (h : Inv s) (a : Step) : OpensAfterClose s a := by
  cases a with
  | listen granted =>
    by_cases hj : s.joining = true
    · have hstep : s.step (.listen granted) = s := if_pos hj
      exact opensAfterClose_of_eq (by rw [hstep])
    · intro hlt
      have hstep : s.step (.listen granted) = (s.listen granted).2 := if_neg hj
      rw [hstep] at hlt
      have hl := listened_listen granted s
      generalize (s.listen granted).2 = s' at hl hlt
      cases hl with
      | refused => exact absurd hlt (Nat.lt_irrefl _)
      | subscribed => exact absurd hlt (Nat.lt_irrefl _)
      | waits => exact absurd hlt (Nat.lt_irrefl _)
      | opens hrun _ hdown hend =>
        obtain ⟨-, hopen, -⟩ := h.joined hrun hdown hend
        exact fun i hi => absurd (hopen i hi) nofun
  | listenJoined granted =>
    by_cases hj : (s.joining && s.thread.any s.hasEnded) = true
    · rw [Bool.and_eq_true] at hj
      obtain ⟨hrun, -, hdown⟩ := h.joining hj.1
      obtain ⟨-, hopen, -⟩ := h.joined hrun hdown fun t ht => by simpa [ht] using hj.2
      exact fun _ i hi => absurd (hopen i hi) nofun
    · have hstep : s.step (.listenJoined granted) = s := if_neg hj
      exact opensAfterClose_of_eq (by rw [hstep])
  | close k => exact opensAfterClose_of_eq rfl
  | erase k => exact opensAfterClose_of_eq rfl
  | pop k => exact opensAfterClose_of_eq rfl
  | setEnabled on => exact opensAfterClose_of_eq (devices_locked rfl)
  | setSampleRate hz =>
    refine opensAfterClose_of_eq (devices_locked ?_)
    unfold AudioService.setSampleRate
    split <;> rfl
  | shutdown => exact opensAfterClose_of_eq (devices_locked rfl)
  | captureStart t => exact opensAfterClose_of_eq (devices_locked (devices_captureStart t s))
  | publish au => exact opensAfterClose_of_eq rfl
  | captureDecide t now =>
    exact opensAfterClose_of_eq (devices_locked (devices_captureDecide t now s))
  | captureClose t =>
    intro hlt
    have hlen : (s.captureClose t).devices.length = s.devices.length := by
      unfold AudioService.captureClose
      split
      · exact List.length_set
      · rfl
    exact absurd (hlen ▸ hlt) (Nat.lt_irrefl _)

/-- In every run of calls, frames and decisions the microphone has one owner. -/
theorem owned_always (cfg : AudioConfig) (hasInput : Bool) (steps : List Step) :
    Always AudioService.step Owned { cfg := cfg, hasInput := hasInput } steps ∧
      Along AudioService.step OpensAfterClose { cfg := cfg, hasInput := hasInput } steps := by
  have h0 : Inv { cfg := cfg, hasInput := hasInput } := by
    refine ⟨.idle rfl rfl nofun nofun, fun hh => ?_, rfl, nofun⟩
    obtain ⟨c, hc, -⟩ := hh
    exact absurd hc List.not_mem_nil
  have hstep : ∀ s a, Inv s → Inv (AudioService.step s a) := fun s a hs => inv_step a hs
  constructor
  · exact fun js _ => (run_invariant hstep h0 js).owned
  · exact along_of_invariant hstep (fun s a hs => hs.opensAfterClose a) h0 steps

end Machino.Audio
