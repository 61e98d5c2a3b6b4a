import Machino.Stream.StreamHub

namespace Machino.Stream

open Runs

/-- The position right behind what has been delivered. -/
def nextPos (ds : List Delivery) : ℕ := (ds.getLast?.map (·.pos + 1)).getD 0

@[simp] theorem nextPos_nil : nextPos [] = 0 := rfl

@[simp] theorem nextPos_concat (ds : List Delivery) (d : Delivery) :
    nextPos (ds ++ [d]) = d.pos + 1 := by simp [nextPos]

/-- The deliveries are frames of the publication in its order, and a frame that is not a key
directly follows its predecessor. -/
structure InOrder (published : List AccessUnit) (delivered : List Delivery) : Prop where
  frames : ∀ d ∈ delivered, published[d.pos]? = some d.au
  subsequence : (delivered.map (·.au)).Sublist published
  order : ∀ before d, before ++ [d] <+: delivered → nextPos before ≤ d.pos
  reference : ∀ before d, before ++ [d] <+: delivered → d.au.key = false → d.pos = nextPos before

/-- Besides, whatever is delivered after a drop is a key frame marked as a discontinuity. -/
structure Decodable (published : List AccessUnit) (delivered : List Delivery) : Prop
    extends InOrder published delivered where
  resumes : ∀ before d, before ++ [d] <+: delivered → nextPos before < d.pos →
    d.au.key = true ∧ d.discontinuity = true

/-- No key frame is published to a full queue that is not already waiting for one. -/
def NoFlushInSync (h : StreamHub) : Op → Prop
  | .publish au => au.key = true → ∀ s ∈ h.subscribers, s.attached = true →
      s.sink.closed = false → s.sink.depth ≤ s.sink.q.length → s.sink.disc = true
  | _ => True

instance (h : StreamHub) : DecidablePred (NoFlushInSync h)
  | .publish au => inferInstanceAs (Decidable (au.key = true → ∀ s ∈ h.subscribers, _))
  | .subscribe _ | .pop _ | .close _ | .erase _ | .swapOut | .setDefaultDepth _ => .isTrue trivial

namespace Subscriber

/-- Where the front of the queue stands among the published frames. -/
def front (s : Subscriber) : ℕ := s.published.length - s.sink.q.length

/-- The queue is the end of what was published, behind what was delivered. Unless frames are
missing, it goes on with the next frame or with a key. -/
structure Inv (s : Subscriber) : Prop where
  video : s.sink.keySupersedes = true
  closed : s.sink.closed = true → s.sink.q = []
  queued : s.sink.q <:+ s.published
  behind : nextPos s.delivered ≤ s.front
  sync : s.sink.closed = false → s.sink.disc = false →
    nextPos s.delivered = s.front ∨ ∃ au q, s.sink.q = au :: q ∧ au.key = true
  within : (s.delivered.map (·.au)).Sublist (s.published.take (nextPos s.delivered))
  inOrder : InOrder s.published s.delivered

/-- Unless frames are missing, the queue goes on with the next frame, and every resumption so
far was marked. -/
structure Marked (s : Subscriber) : Prop where
  sync : s.sink.closed = false → s.sink.disc = false → nextPos s.delivered = s.front
  marked : ∀ before d, before ++ [d] <+: s.delivered → nextPos before < d.pos →
    d.discontinuity = true

end Subscriber

theorem take_concat_of_getElem? {α : Type*} {l : List α} {n : ℕ} {a : α} (h : l[n]? = some a) :
    l.take n ++ [a] = l.take (n + 1) := by
  rw [List.take_add_one, h]
  rfl

theorem concat_prefix_concat {α : Type*} {before l : List α} {a b : α} :
    before ++ [a] <+: l ++ [b] ↔ before ++ [a] <+: l ∨ before = l ∧ a = b := by
  rw [List.prefix_concat_iff, List.append_singleton_inj, or_comm]

/-- A further delivery, at or behind the next position, and a key unless it is the next. -/
theorem InOrder.concat {published : List AccessUnit} {ds : List Delivery} {d : Delivery}
    (h : InOrder published ds) (hd : published[d.pos]? = some d.au) (hle : nextPos ds ≤ d.pos)
    (hsub : (ds.map (·.au)).Sublist (published.take (nextPos ds)))
    (hkey : d.au.key = false → d.pos = nextPos ds) :
    InOrder published (ds ++ [d]) ∧
      ((ds ++ [d]).map (·.au)).Sublist (published.take (nextPos (ds ++ [d]))) := by
  have hnew : ((ds ++ [d]).map (·.au)).Sublist (published.take (d.pos + 1)) := by
    rw [List.map_append, ← take_concat_of_getElem? hd]
    exact (hsub.trans (List.take_sublist_take_left hle)).append_right _
  rw [nextPos_concat]
  refine ⟨⟨?_, hnew.trans (List.take_sublist _ _), ?_, ?_⟩, hnew⟩
  · intro e he
    rcases List.mem_append.mp he with he | he
    · exact h.frames e he
    · rw [List.mem_singleton.mp he]
      exact hd
  · intro before e hpre
    rcases concat_prefix_concat.mp hpre with hpre | ⟨rfl, rfl⟩
    · exact h.order before e hpre
    · exact hle
  · intro before e hpre
    rcases concat_prefix_concat.mp hpre with hpre | ⟨rfl, rfl⟩
    · exact h.reference before e hpre
    · exact hkey

/-- More may be published behind what has been delivered. -/
theorem InOrder.publish {published : List AccessUnit} {ds : List Delivery}
    (h : InOrder published ds) (au : AccessUnit) : InOrder (published ++ [au]) ds := by
  refine ⟨fun d hd => ?_, h.subsequence.trans (List.sublist_append_left _ _), h.order, h.reference⟩
  have hframe := h.frames d hd
  rw [List.getElem?_append_left (List.getElem?_eq_some_iff.mp hframe).1]
  exact hframe

namespace Subscriber

/-- A queued frame stands where the frames behind it tell. -/
theorem Inv.queued_at {s : Subscriber} (h : s.Inv) (lost : List AccessUnit) {au : AccessUnit}
    {q : List AccessUnit} (hq : s.sink.q = lost ++ au :: q) :
    s.published[s.published.length - (q.length + 1)]? = some au ∧
      s.published.length - (q.length + 1) = s.front + lost.length ∧
      q <:+ s.published ∧ q.length + 1 ≤ s.published.length := by
  obtain ⟨t, ht⟩ := h.queued
  unfold front
  rw [← ht, hq]
  have hpos : (t ++ (lost ++ au :: q)).length - (q.length + 1) = (t ++ lost).length := by
    simp only [List.length_append, List.length_cons]
    omega
  refine ⟨?_, ?_, ⟨t ++ lost ++ [au], by simp⟩, ?_⟩
  · rw [hpos, ← List.append_assoc]
    simp
  · rw [hpos]
    simp only [List.length_append, List.length_cons]
    omega
  · simp only [List.length_append, List.length_cons]
    omega

theorem Inv.publish {s : Subscriber} (h : s.Inv) (au : AccessUnit) : (s.publish au).Inv := by
  have hlen := h.queued.length_le
  have hbehind := h.behind
  have hwithin : (s.delivered.map (·.au)).Sublist
      ((s.published ++ [au]).take (nextPos s.delivered)) := by
    unfold front at hbehind
    rw [List.take_append_of_le_length (by omega)]
    exact h.within
  unfold Subscriber.publish
  split
  · cases hc : s.sink.closed with
    | true =>
      have hq := h.closed hc
      -- a closed sink takes nothing and has nothing queued
      have hpush : s.sink.push au = s.sink := by simp [Sink.push, hc]
      rw [hpush]
      refine ⟨h.video, h.closed, ?_, ?_, by simp [hc], hwithin, h.inOrder.publish au⟩
      · simp [hq]
      · simp only [front, List.length_append, List.length_singleton] at hbehind ⊢
        omega
    | false =>
      have hp := Sink.pushed_push au hc h.video
      generalize s.sink.push au = sink at hp ⊢
      cases hp with
      | room =>
        refine ⟨h.video, by simp [hc], ?_, ?_, ?_, hwithin, h.inOrder.publish au⟩
        · obtain ⟨t, ht⟩ := h.queued
          exact ⟨t, by simp [← ht]⟩
        · simp only [front, List.length_append, List.length_singleton] at hbehind ⊢
          omega
        · intro _ hd
          rcases h.sync hc hd with hnext | ⟨au', q, hq, hkey⟩
          · refine .inl (hnext.trans ?_)
            simp only [front, List.length_append, List.length_singleton]
            omega
          · exact .inr ⟨au', q ++ [au], by simp [hq], hkey⟩
      -- full at a key frame: the queue restarts at it, so what is left is decodable
      | flushed n hkey hfull =>
        refine ⟨h.video, by simp [hc], ⟨s.published, rfl⟩, ?_, ?_, hwithin, h.inOrder.publish au⟩
        · simp only [front, List.length_append, List.length_singleton] at hbehind ⊢
          omega
        · exact fun _ _ => .inr ⟨au, [], rfl, hkey⟩
      | shed old q n hq =>
        refine ⟨h.video, by simp [hc], ?_, ?_, by simp, hwithin, h.inOrder.publish au⟩
        · obtain ⟨t, ht⟩ := h.queued
          exact ⟨t ++ [old], by simp [← ht, hq]⟩
        · rw [hq] at hlen
          simp only [front, hq, List.length_append, List.length_cons] at hbehind hlen ⊢
          omega
  · exact h

theorem Inv.pop {s : Subscriber} (h : s.Inv) : s.pop.Inv := by
  have hp := Sink.popped_pop s.sink
  have hbehind := h.behind
  unfold Subscriber.pop
  generalize s.sink.pop = r at hp ⊢
  cases hp with
  | @next au q hd hq =>
    obtain ⟨hat, hpos, hsuf, hlen⟩ := h.queued_at [] hq
    have hopen : s.sink.closed = false := by
      by_contra hc
      simp [h.closed (by simpa using hc)] at hq
    -- in sync (`sync`), a frame that is no key stands right behind the last one delivered
    have hkey : au.key = false → s.published.length - (q.length + 1) = nextPos s.delivered := by
      intro hk
      rcases h.sync hopen hd with hnext | ⟨au', q', hq', hkey⟩
      · exact hpos.trans hnext.symm
      · obtain ⟨rfl, -⟩ := List.cons.inj (hq.symm.trans hq')
        simp [hk] at hkey
    have hnew := h.inOrder.concat (d := ⟨s.published.length - (q.length + 1), au, false⟩) hat
      (by simp only [List.length_nil] at hpos; dsimp only; omega) h.within hkey
    refine ⟨h.video, by simp [hopen], hsuf, ?_, ?_, hnew.2, hnew.1⟩
    · simp only [front, nextPos_concat]
      omega
    · intro _ _
      refine .inl ?_
      simp only [front, nextPos_concat]
      omega
  | @resumed lost au q n hd hk hq =>
    obtain ⟨hat, hpos, hsuf, hlen⟩ := h.queued_at _ hq
    have hnew := h.inOrder.concat (d := ⟨s.published.length - (q.length + 1), au, true⟩) hat
      (by dsimp only; omega) h.within (by simp [hk])
    have hopen : s.sink.closed = false := by
      by_contra hc
      simp [h.closed (by simpa using hc)] at hq
    refine ⟨h.video, by simp [hopen], hsuf, ?_, ?_, hnew.2, hnew.1⟩
    · simp only [front, nextPos_concat]
      omega
    · intro _ _
      refine .inl ?_
      simp only [front, nextPos_concat]
      omega
  | drained n hempty =>
    refine ⟨h.video, fun _ => rfl, List.nil_suffix, ?_, ?_, h.within, h.inOrder⟩
    · simp only [front, List.length_nil] at hbehind ⊢
      omega
    · intro hopen hd
      have hq : s.sink.q = [] := hempty.resolve_right (by simp [show s.sink.disc = false from hd])
      rcases h.sync hopen hd with hnext | ⟨au, q, hq', -⟩
      · refine .inl (hnext.trans ?_)
        simp [front, hq]
      · simp [hq] at hq'

theorem Inv.close {s : Subscriber} (h : s.Inv) : s.close.Inv := by
  have hbehind := h.behind
  refine ⟨h.video, fun _ => rfl, List.nil_suffix, ?_, ?_, h.within, h.inOrder⟩
  · simp only [Subscriber.close, Sink.close, front, List.length_nil] at hbehind ⊢
    omega
  · intro hopen
    cases hopen

theorem Inv.create (depth : ℕ) : Inv { sink := .create depth true } :=
  ⟨rfl, fun _ => rfl, List.nil_suffix, Nat.zero_le _, fun _ _ => .inl rfl, List.Sublist.refl _,
    ⟨by simp, List.Sublist.refl _, by simp, by simp⟩⟩

theorem Marked.publish {s : Subscriber} (h : s.Marked) (hi : s.Inv) {au : AccessUnit}
    (hok : au.key = true → s.attached = true → s.sink.closed = false →
      s.sink.depth ≤ s.sink.q.length → s.sink.disc = true) : (s.publish au).Marked := by
  unfold Subscriber.publish
  split
  · rename_i hatt
    refine ⟨?_, h.marked⟩
    cases hc : s.sink.closed with
    | true => simp [Sink.push, hc]
    | false =>
      have hp := Sink.pushed_push au hc hi.video
      generalize s.sink.push au = sink at hp ⊢
      cases hp with
      | room =>
        intro _ hd
        refine (h.sync hc hd).trans ?_
        simp only [front, List.length_append, List.length_singleton]
        omega
      | flushed n hkey hfull =>
        intro _ hd
        exact absurd ((hok hkey hatt hc hfull).symm.trans hd) (by decide)
      | shed old q n hq => simp
  · exact h

theorem Marked.pop {s : Subscriber} (h : s.Marked) (hi : s.Inv) : s.pop.Marked := by
  have hp := Sink.popped_pop s.sink
  unfold Subscriber.pop
  generalize s.sink.pop = r at hp ⊢
  cases hp with
  | @next au q hd hq =>
    obtain ⟨-, hpos, -, hlen⟩ := hi.queued_at [] hq
    have hopen : s.sink.closed = false := by
      by_contra hc
      simp [hi.closed (by simpa using hc)] at hq
    have hsync := h.sync hopen hd
    refine ⟨fun _ _ => ?_, fun before d hpre hlt => ?_⟩
    · simp only [front, nextPos_concat]
      omega
    · rcases concat_prefix_concat.mp hpre with hpre | ⟨rfl, rfl⟩
      · exact h.marked before d hpre hlt
      · -- the frame is the next one, so nothing was dropped before it
        simp only [List.length_nil] at hpos
        dsimp only at hlt
        omega
  | @resumed lost au q n hd hk hq =>
    obtain ⟨-, hpos, -, hlen⟩ := hi.queued_at _ hq
    refine ⟨fun _ _ => ?_, fun before d hpre hlt => ?_⟩
    · simp only [front, nextPos_concat]
      omega
    · rcases concat_prefix_concat.mp hpre with hpre | ⟨rfl, rfl⟩
      · exact h.marked before d hpre hlt
      · rfl
  | drained n hempty =>
    refine ⟨fun hopen hd => ?_, h.marked⟩
    have hq : s.sink.q = [] := hempty.resolve_right (by simp [show s.sink.disc = false from hd])
    refine (h.sync hopen hd).trans ?_
    simp [front, hq]

theorem Inv.decodable {s : Subscriber} (h : s.Inv) (hm : s.Marked) :
    Decodable s.published s.delivered := by
  refine ⟨h.inOrder, fun before d hpre hlt => ⟨?_, hm.marked before d hpre hlt⟩⟩
  by_contra hk
  have heq := h.inOrder.reference before d hpre (by simpa using hk)
  omega

end Subscriber

namespace StreamHub

/-- Every subscriber of a video hub is in order. -/
structure Inv (h : StreamHub) : Prop where
  video : h.keySupersedes = true
  subscribers : ∀ s ∈ h.subscribers, s.Inv

theorem Inv.step {h : StreamHub} (hi : h.Inv) (op : Op) : (h.step op).Inv := by
  refine ⟨(keySupersedes_step h op).trans hi.video, fun t ht => ?_⟩
  obtain ⟨depth, rfl⟩ | ⟨s, hs, rfl | ⟨au, -, rfl⟩ | rfl | rfl | rfl⟩ := mem_step ht
  · rw [hi.video]
    exact .create depth
  · exact hi.subscribers _ hs
  · exact (hi.subscribers s hs).publish au
  · exact (hi.subscribers s hs).pop
  · exact (hi.subscribers s hs).close
  · have hsub := hi.subscribers s hs
    exact ⟨hsub.video, hsub.closed, hsub.queued, hsub.behind, hsub.sync, hsub.within, hsub.inOrder⟩

/-- Whatever is published, dropped and flushed, each consumer is given published frames in their
order, and a frame that is not a key only right behind its predecessor. -/
theorem inOrder_run (ops : List Op) :
    ∀ s ∈ (run step {} ops).subscribers, InOrder s.published s.delivered := by
  have hinv : (run step {} ops).Inv :=
    run_invariant (fun h op hi => hi.step op) ⟨rfl, by simp⟩ ops
  exact fun s hs => (hinv.subscribers s hs).inOrder

theorem marked_step {h : StreamHub} (hi : h.Inv) (hm : ∀ s ∈ h.subscribers, s.Marked) {op : Op}
    (hok : NoFlushInSync h op) : ∀ t ∈ (h.step op).subscribers, t.Marked := by
  intro t ht
  obtain ⟨depth, rfl⟩ | ⟨s, hs, rfl | ⟨au, rfl, rfl⟩ | rfl | rfl | rfl⟩ := mem_step ht
  · exact ⟨fun _ _ => rfl, by simp⟩
  · exact hm _ hs
  · exact (hm s hs).publish (hi.subscribers s hs) fun hk => hok hk s hs
  · exact (hm s hs).pop (hi.subscribers s hs)
  · exact ⟨by simp [Subscriber.close, Sink.close], (hm s hs).marked⟩
  · exact ⟨(hm s hs).sync, (hm s hs).marked⟩

/-- As long as no key frame flushes the full queue of a consumer that is in sync, what each
consumer is given can be decoded, and it is told of every gap. -/
theorem decodable_run (ops : List Op) (hok : Along step NoFlushInSync {} ops) :
    Always step (fun h => ∀ s ∈ h.subscribers, Decodable s.published s.delivered) {} ops := by
  have hkeep (h : StreamHub) (op : Op) (hh : h.Inv ∧ ∀ s ∈ h.subscribers, s.Marked)
      (ho : NoFlushInSync h op) :
      (h.step op).Inv ∧ ∀ s ∈ (h.step op).subscribers, s.Marked :=
    ⟨hh.1.step op, marked_step hh.1 hh.2 ho⟩
  have hall := always_of_along hkeep ⟨⟨rfl, by simp⟩, by simp⟩ hok
  exact hall.mono fun h hh s hs => (hh.1.subscribers s hs).decodable (hh.2 s hs)

end StreamHub

/-- A consumer that loses a frame, passes over the next one and resumes at a key. -/
theorem decodable_run_resumed :
    Always StreamHub.step (fun h => ∀ s ∈ h.subscribers, Decodable s.published s.delivered) {}
      [.subscribe 2, .publish { key := true }, .pop 0, .publish {}, .publish {}, .publish {},
        .pop 0, .publish { key := true }, .pop 0] :=
  StreamHub.decodable_run _ (by decide)

/-- A key frame that flushes the full queue of a consumer in sync reaches it unmarked, although
the frame before it was dropped. -/
theorem not_decodable_flush :
    ¬ ∀ s ∈ (run StreamHub.step {} [.subscribe 1, .publish { key := true }, .pop 0,
      .publish {}, .publish { key := true }, .pop 0]).subscribers,
        Decodable s.published s.delivered := by
  intro h
  have hd := (h _ (List.mem_singleton.mpr rfl)).resumes [⟨0, { key := true }, false⟩]
    ⟨2, { key := true }, false⟩ ⟨[], rfl⟩ (by decide)
  simp at hd

end Machino.Stream
