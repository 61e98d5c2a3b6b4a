import Machino.Basic.Runs

namespace Machino.Stream

/-- One encoded frame. -/
structure AccessUnit where
  data : List UInt8 := []
  ptsUs : Int := 0
  fetchedUs : Int := 0
  key : Bool := false
  seq : UInt32 := 0
  deriving DecidableEq, Repr

/-- The bounded queue of one consumer. -/
structure Sink where
  depth : ℕ
  keySupersedes : Bool := true
  q : List AccessUnit := []
  closed : Bool := false
  disc : Bool := false
  dropped : ℕ := 0
  depth_pos : 0 < depth

theorem depth_pos (depth : ℕ) : 0 < if depth = 0 then 1 else depth := by split <;> omega

namespace Sink

def create (depth : ℕ) (keySupersedes : Bool) : Sink where
  depth := if depth = 0 then 1 else depth
  keySupersedes := keySupersedes
  depth_pos := Stream.depth_pos depth

/-- The loop of `pop` over what is queued: a consumer that has lost frames is given none until
the next key frame. -/
def popFrom (s : Sink) : List AccessUnit → Option (AccessUnit × Bool) × Sink
  | [] => (none, { s with q := [] })
  | out :: q =>
    if !s.disc then (some (out, false), { s with q := q })
    else if out.key then (some (out, true), { s with q := q, disc := false })
    else popFrom { s with dropped := s.dropped + 1 } q

/-- One turn of `pop` up to where it would wait: the frame with its discontinuity mark, if any. -/
def pop (s : Sink) : Option (AccessUnit × Bool) × Sink := s.popFrom s.q

/-- Make room in a full queue: a key frame supersedes everything queued before it (video only),
otherwise the oldest frame goes. -/
def makeRoom (au : AccessUnit) (s : Sink) : Sink :=
  if s.depth ≤ s.q.length then
    if au.key && s.keySupersedes then { s with dropped := s.dropped + s.q.length, q := [] }
    else { s with
      q := s.q.tail, dropped := s.dropped + 1, disc := if !s.keySupersedes then s.disc else true }
  else s

def push (au : AccessUnit) (s : Sink) : Sink :=
  if s.closed then s
  else
    let s := s.makeRoom au
    { s with q := s.q ++ [au] }

def close (s : Sink) : Sink := { s with closed := true, q := [] }

/-- What a turn of `pop` can do. -/
inductive Popped (s : Sink) : Option (AccessUnit × Bool) × Sink → Prop
  | next {au : AccessUnit} {q : List AccessUnit} : s.disc = false → s.q = au :: q →
      Popped s (some (au, false), { s with q := q })
  | resumed {lost : List AccessUnit} {au : AccessUnit} {q : List AccessUnit} (n : ℕ) :
      s.disc = true → au.key = true → s.q = lost ++ au :: q →
      Popped s (some (au, true), { s with q := q, disc := false, dropped := n })
  | drained (n : ℕ) : s.q = [] ∨ s.disc = true →
      Popped s (none, { s with q := [], dropped := n })

theorem popped_pop (s : Sink) : Popped s s.pop := by
  cases hd : s.disc with
  | false =>
    unfold pop
    match hq : s.q with
    | [] => exact .drained s.dropped (.inl hq)
    | au :: q =>
      unfold popFrom
      rw [if_pos (by simp [hd])]
      exact .next hd hq
  | true =>
    -- the frames already passed over are counted, and none of them was a key
    have hloop (lost q : List AccessUnit) (n : ℕ) (hq : s.q = lost ++ q) :
        Popped s (popFrom { s with dropped := n } q) := by
      induction q generalizing lost n with
      | nil => exact .drained n (.inr hd)
      | cons au q ih =>
        unfold popFrom
        rw [if_neg (by simp [hd])]
        by_cases hk : au.key = true
        · rw [if_pos hk]
          exact .resumed n hd hk hq
        · rw [if_neg hk]
          exact ih (lost ++ [au]) (n + 1) (by simpa using hq)
    exact hloop [] s.q s.dropped rfl

/-- What a push does to an open queue. -/
inductive Pushed (au : AccessUnit) (s : Sink) : Sink → Prop
  | room : Pushed au s { s with q := s.q ++ [au] }
  | flushed (n : ℕ) : au.key = true → s.depth ≤ s.q.length →
      Pushed au s { s with dropped := n, q := [au] }
  | shed (old : AccessUnit) (q : List AccessUnit) (n : ℕ) : s.q = old :: q →
      Pushed au s { s with q := q ++ [au], dropped := n, disc := true }

theorem pushed_push {s : Sink} (au : AccessUnit) (hopen : s.closed = false)
    (hvideo : s.keySupersedes = true) : Pushed au s (s.push au) := by
  unfold push makeRoom
  rw [if_neg (by simp [hopen])]
  dsimp only
  split
  · rename_i hfull
    split
    · rename_i hkey
      exact .flushed _ (by simpa [hvideo] using hkey) hfull
    · have hpos : 0 < s.q.length := Nat.lt_of_lt_of_le s.depth_pos hfull
      obtain ⟨old, q, hq⟩ := List.exists_cons_of_length_pos hpos
      have htail : s.q.tail = q := by rw [hq]; rfl
      have hdisc : (if !s.keySupersedes then s.disc else true) = true := by simp [hvideo]
      rw [htail, hdisc]
      exact .shed old q (s.dropped + 1) hq
  · exact .room

end Sink

/-- A frame handed to a consumer: where it stood among the frames published to it, and the
discontinuity mark it came with. -/
structure Delivery where
  pos : ℕ
  au : AccessUnit
  discontinuity : Bool
  deriving DecidableEq, Repr

/-- A sink, whether the hub still serves it, and what has gone in and out of it. -/
structure Subscriber where
  sink : Sink
  attached : Bool := true
  published : List AccessUnit := []
  delivered : List Delivery := []

namespace Subscriber

def publish (au : AccessUnit) (s : Subscriber) : Subscriber :=
  if s.attached then { s with sink := s.sink.push au, published := s.published ++ [au] } else s

/-- The frames behind a delivered one are still queued, which tells where it stood. -/
def pop (s : Subscriber) : Subscriber :=
  match s.sink.pop with
  | (none, sink) => { s with sink := sink }
  | (some (au, disc), sink) =>
    { s with
      sink := sink
      delivered := s.delivered ++ [⟨s.published.length - (sink.q.length + 1), au, disc⟩] }

def close (s : Subscriber) : Subscriber := { s with sink := s.sink.close }

def detach (s : Subscriber) : Subscriber := { s with attached := false }

end Subscriber

/-- The fan-out, with every consumer that ever subscribed. -/
structure StreamHub where
  defaultDepth : ℕ := 4
  keySupersedes : Bool := true
  subscribers : List Subscriber := []

/-- The locked sections. `unsubscribe` closes the sink and then erases it; `close_all` swaps all
sinks out and then closes each. -/
inductive Op where
  | subscribe (depth : ℕ)
  | publish (au : AccessUnit)
  | pop (k : ℕ)
  | close (k : ℕ)
  | erase (k : ℕ)
  | swapOut
  | setDefaultDepth (d : ℕ)

namespace StreamHub

def subscribe (depth : ℕ) (h : StreamHub) : StreamHub :=
  { h with subscribers := h.subscribers ++
      [{ sink := .create (if depth = 0 then h.defaultDepth else depth) h.keySupersedes }] }

def publish (au : AccessUnit) (h : StreamHub) : StreamHub :=
  { h with subscribers := h.subscribers.map (·.publish au) }

def setDefaultDepth (d : ℕ) (h : StreamHub) : StreamHub :=
  { h with defaultDepth := if d = 0 then 1 else d }

/-- `close_all` in one go: those that were served are closed, and none is served any more. -/
def closeAll (h : StreamHub) : StreamHub :=
  { h with subscribers := h.subscribers.map fun s => if s.attached then s.detach.close else s }

def consumers (h : StreamHub) : ℕ := h.subscribers.countP Subscriber.attached

def step (h : StreamHub) : Op → StreamHub
  | .subscribe depth => h.subscribe depth
  | .publish au => h.publish au
  | .pop k => { h with subscribers := h.subscribers.modify k Subscriber.pop }
  | .close k => { h with subscribers := h.subscribers.modify k Subscriber.close }
  | .erase k => { h with subscribers := h.subscribers.modify k Subscriber.detach }
  | .swapOut => { h with subscribers := h.subscribers.map Subscriber.detach }
  | .setDefaultDepth d => h.setDefaultDepth d

theorem exists_of_mem_modify {ss : List Subscriber} {k : ℕ} {f : Subscriber → Subscriber}
    {t : Subscriber} (ht : t ∈ ss.modify k f) : ∃ s ∈ ss, t = s ∨ t = f s := by
  obtain ⟨i, hi⟩ := List.mem_iff_getElem?.mp ht
  rw [List.getElem?_modify] at hi
  cases hs : ss[i]? with
  | none => simp [hs] at hi
  | some s =>
    refine ⟨s, List.mem_of_getElem? hs, ?_⟩
    by_cases hk : k = i
    · simp [hs, hk] at hi
      exact .inr hi.symm
    · simp [hs, hk] at hi
      exact .inl hi.symm

/-- What one subscriber can do in a step: it is new, or has been left alone, published to,
popped, closed or detached. -/
theorem mem_step {h : StreamHub} {op : Op} {t : Subscriber}
    (ht : t ∈ (h.step op).subscribers) :
    (∃ depth, t = { sink := .create depth h.keySupersedes }) ∨
      ∃ s ∈ h.subscribers, t = s ∨ (∃ au, op = .publish au ∧ t = s.publish au) ∨ t = s.pop ∨
        t = s.close ∨ t = s.detach := by
  cases op with
  | subscribe depth =>
    rcases List.mem_append.mp ht with hold | hnew
    · exact .inr ⟨t, hold, .inl rfl⟩
    · exact .inl ⟨_, List.mem_singleton.mp hnew⟩
  | publish au =>
    obtain ⟨s, hs, rfl⟩ := List.mem_map.mp ht
    exact .inr ⟨s, hs, .inr (.inl ⟨au, rfl, rfl⟩)⟩
  | pop k =>
    obtain ⟨s, hs, rfl | rfl⟩ := exists_of_mem_modify ht
    · exact .inr ⟨_, hs, .inl rfl⟩
    · exact .inr ⟨s, hs, .inr (.inr (.inl rfl))⟩
  | close k =>
    obtain ⟨s, hs, rfl | rfl⟩ := exists_of_mem_modify ht
    · exact .inr ⟨_, hs, .inl rfl⟩
    · exact .inr ⟨s, hs, .inr (.inr (.inr (.inl rfl)))⟩
  | erase k =>
    obtain ⟨s, hs, rfl | rfl⟩ := exists_of_mem_modify ht
    · exact .inr ⟨_, hs, .inl rfl⟩
    · exact .inr ⟨s, hs, .inr (.inr (.inr (.inr rfl)))⟩
  | swapOut =>
    obtain ⟨s, hs, rfl⟩ := List.mem_map.mp ht
    exact .inr ⟨s, hs, .inr (.inr (.inr (.inr rfl)))⟩
  | setDefaultDepth d => exact .inr ⟨t, ht, .inl rfl⟩

@[simp] theorem keySupersedes_step (h : StreamHub) (op : Op) :
    (h.step op).keySupersedes = h.keySupersedes := by
  cases op <;> rfl

end StreamHub

end Machino.Stream
