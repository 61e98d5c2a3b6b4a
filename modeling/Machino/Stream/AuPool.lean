import Mathlib.Data.Finset.Card
import Machino.Stream.StreamHub

namespace Machino.Stream

open Runs

/-- A shared reference into the pool: the slot and the frame in it. -/
structure AuPtr where
  slot : ℕ
  au : AccessUnit
  deriving DecidableEq, Repr

/-- The pool of slots the encoder fills, and where the next search for a free one begins. -/
structure AuPool where
  slots : ℕ
  next : ℕ := 0
  exhausted : ℕ := 0
  deriving DecidableEq, Repr

namespace AuPool

/-- The search over the next `n` slots. -/
def scan (busy : ℕ → Bool) (slots : ℕ) : ℕ → ℕ → Option ℕ × ℕ
  | 0, next => (none, next)
  | n + 1, next =>
    if busy next then scan busy slots n ((next + 1) % slots) else (some next, (next + 1) % slots)

/-- A slot nobody else references; `busy` tells which slots are. -/
def acquire (busy : ℕ → Bool) (p : AuPool) : Option ℕ × AuPool :=
  match scan busy p.slots p.slots p.next with
  | (some slot, next) => (some slot, { p with next := next })
  | (none, next) => (none, { p with next := next, exhausted := p.exhausted + 1 })

end AuPool

/-- The queue of a consumer, of references. -/
structure PtrSink where
  depth : ℕ
  q : List AuPtr := []
  closed : Bool := false
  disc : Bool := false
  dropped : ℕ := 0
  depth_pos : 0 < depth

namespace PtrSink

def create (depth : ℕ) : PtrSink where
  depth := if depth = 0 then 1 else depth
  depth_pos := Stream.depth_pos depth

def popFrom (s : PtrSink) : List AuPtr → Option AuPtr × PtrSink
  | [] => (none, { s with q := [] })
  | out :: q =>
    if !s.disc then (some out, { s with q := q })
    else if out.au.key then (some out, { s with q := q, disc := false })
    else popFrom { s with dropped := s.dropped + 1 } q

def pop (s : PtrSink) : Option AuPtr × PtrSink := s.popFrom s.q

def push (p : AuPtr) (s : PtrSink) : PtrSink :=
  if s.closed then s
  else if s.depth ≤ s.q.length then
    if p.au.key then { s with dropped := s.dropped + s.q.length, q := [p] }
    else { s with q := s.q.tail ++ [p], dropped := s.dropped + 1, disc := true }
  else { s with q := s.q ++ [p] }

/-- The same queue, of the frames themselves. -/
def frames (s : PtrSink) : Sink where
  depth := s.depth
  q := s.q.map AuPtr.au
  closed := s.closed
  disc := s.disc
  dropped := s.dropped
  depth_pos := s.depth_pos

theorem frames_push (p : AuPtr) (s : PtrSink) : (s.push p).frames = s.frames.push p.au := by
  unfold push Sink.push Sink.makeRoom
  by_cases hc : s.closed = true
  · rw [if_pos hc, if_pos (show s.frames.closed = true from hc)]
  · rw [if_neg hc, if_neg (show ¬ s.frames.closed = true from hc)]
    by_cases hfull : s.depth ≤ s.q.length
    · have hfull' : s.frames.depth ≤ s.frames.q.length := by simpa [frames] using hfull
      rw [if_pos hfull, if_pos hfull']
      by_cases hk : p.au.key = true
      · rw [if_pos hk, if_pos (by simpa [frames] using hk)]
        simp [frames]
      · rw [if_neg hk, if_neg (by simpa [frames] using hk)]
        simp [frames, List.map_tail]
    · have hroom : ¬ s.frames.depth ≤ s.frames.q.length := by simpa [frames] using hfull
      rw [if_neg hfull, if_neg hroom]
      simp [frames]

theorem frames_pop (s : PtrSink) :
    (s.pop.1.map fun p => p.au) = s.frames.pop.1.map Prod.fst ∧
      s.pop.2.frames = s.frames.pop.2 := by
  have hloop (q : List AuPtr) (n : ℕ) :
      ((popFrom { s with dropped := n } q).1.map fun p => p.au) =
          (Sink.popFrom { s.frames with dropped := n } (q.map AuPtr.au)).1.map Prod.fst ∧
        (popFrom { s with dropped := n } q).2.frames =
          (Sink.popFrom { s.frames with dropped := n } (q.map AuPtr.au)).2 := by
    induction q generalizing n with
    | nil => exact ⟨rfl, rfl⟩
    | cons p q ih =>
      unfold popFrom
      rw [List.map_cons]
      unfold Sink.popFrom
      by_cases hd : s.disc = true
      · by_cases hk : p.au.key = true
        · simp [frames, hd, hk]
        · simpa [frames, hd, hk] using ih (n + 1)
      · simp [frames, hd]
  exact hloop s.q s.dropped

/-- What a push does to an open queue. -/
inductive Pushed (p : AuPtr) (s : PtrSink) : PtrSink → Prop
  | room : s.q.length < s.depth → Pushed p s { s with q := s.q ++ [p] }
  | flushed (n : ℕ) : s.depth ≤ s.q.length → n = s.dropped + s.q.length →
      Pushed p s { s with dropped := n, q := [p] }
  | shed (old : AuPtr) (q : List AuPtr) : s.q = old :: q →
      Pushed p s { s with q := q ++ [p], dropped := s.dropped + 1, disc := true }

theorem pushed_push (p : AuPtr) {s : PtrSink} (hopen : s.closed = false) :
    Pushed p s (s.push p) := by
  unfold push
  rw [if_neg (by simp [hopen])]
  split
  · rename_i hfull
    split
    · exact .flushed _ hfull rfl
    · have hpos : 0 < s.q.length := Nat.lt_of_lt_of_le s.depth_pos hfull
      obtain ⟨old, q, hq⟩ := List.exists_cons_of_length_pos hpos
      have htail : s.q.tail = q := by rw [hq]; rfl
      rw [htail]
      exact .shed old q hq
  · exact .room (by omega)

theorem push_room (p : AuPtr) {s : PtrSink} (hopen : s.closed = false) (h : s.q.length < s.depth) :
    s.push p = { s with q := s.q ++ [p] } := by
  unfold push
  rw [if_neg (by simp [hopen]), if_neg (by omega)]

/-- What a turn of `pop` can do. -/
inductive Popped (s : PtrSink) : Option AuPtr × PtrSink → Prop
  | next {p : AuPtr} {q : List AuPtr} : s.disc = false → s.q = p :: q →
      Popped s (some p, { s with q := q })
  | resumed {p : AuPtr} {q : List AuPtr} (n : ℕ) : s.disc = true → p :: q <:+ s.q →
      Popped s (some p, { s with q := q, disc := false, dropped := s.dropped + n })
  | drained (n : ℕ) : s.q = [] ∨ s.disc = true →
      Popped s (none, { s with q := [], dropped := s.dropped + n })

theorem popped_pop (s : PtrSink) : Popped s s.pop := by
  cases hd : s.disc with
  | false =>
    unfold pop
    match hq : s.q with
    | [] => exact .drained 0 (.inl hq)
    | p :: q =>
      unfold popFrom
      rw [if_pos (by simp [hd])]
      exact .next hd hq
  | true =>
    have hloop (q : List AuPtr) (n : ℕ) (hq : q <:+ s.q) :
        Popped s (popFrom { s with dropped := s.dropped + n } q) := by
      induction q generalizing n with
      | nil => exact .drained n (.inr hd)
      | cons p q ih =>
        unfold popFrom
        rw [if_neg (by simp [hd])]
        by_cases hk : p.au.key = true
        · rw [if_pos hk]
          exact .resumed n hd hq
        · rw [if_neg hk]
          exact ih (n + 1) ((List.suffix_cons p q).trans hq)
    exact hloop s.q 0 List.suffix_rfl

end PtrSink

/-- A client of the hub: its queue and the frame it is sending. `since` is how many frames the
encoder had put out when it came. -/
structure Consumer where
  sink : PtrSink
  hand : Option AuPtr := none
  since : ℕ
  received : List AccessUnit := []

namespace Consumer

def pop (c : Consumer) : Consumer :=
  match c.sink.pop with
  | (some p, sink) => { c with sink := sink, hand := some p, received := c.received ++ [p.au] }
  | (none, sink) => { c with sink := sink, hand := none }

def push (p : AuPtr) (c : Consumer) : Consumer := { c with sink := c.sink.push p }

def release (c : Consumer) : Consumer := { c with hand := none }

def refs (c : Consumer) : List ℕ := (c.sink.q ++ c.hand.toList).map AuPtr.slot

end Consumer

/-- Where a turn of the capture loop stands: it has a slot to fill, or none. -/
inductive Turn where
  | idle | filling (slot : ℕ) | scratch
  deriving DecidableEq, Repr

/-- The capture loop of a unit with its pool and the consumers of its hub, besides all frames the
encoder has put out and those that were published. -/
structure CapturePath where
  pool : AuPool := { slots := 16 }
  turn : Turn := .idle
  queueDepth : ℕ
  consumers : List Consumer := []
  captured : List AccessUnit := []
  published : List AuPtr := []

inductive CaptureOp where
  | subscribe
  | unsubscribe (k : ℕ)
  | pop (k : ℕ)
  | release (k : ℕ)
  | acquire
  | fetch (frame : Option AccessUnit)

namespace CapturePath

def refs (s : CapturePath) : List ℕ := s.consumers.flatMap Consumer.refs

/-- With at most `maxClients` consumers at a time. -/
def step (maxClients : ℕ) (s : CapturePath) : CaptureOp → CapturePath
  | .subscribe =>
    if s.consumers.length < maxClients then
      { s with consumers := s.consumers ++
          [{ sink := .create s.queueDepth, since := s.captured.length }] }
    else s
  | .unsubscribe k => { s with consumers := s.consumers.eraseIdx k }
  | .pop k => { s with consumers := s.consumers.modify k Consumer.pop }
  | .release k => { s with consumers := s.consumers.modify k Consumer.release }
  | .acquire =>
    match s.turn with
    | .idle =>
      match s.pool.acquire fun slot => slot ∈ s.refs with
      | (some slot, pool) => { s with pool := pool, turn := .filling slot }
      | (none, pool) => { s with pool := pool, turn := .scratch }
    | .filling _ | .scratch => s
  | .fetch frame =>
    match s.turn, frame with
    | .idle, _ => s
    | .filling _, none | .scratch, none => { s with turn := .idle }
    | .filling slot, some au =>
      { s with
        turn := .idle
        captured := s.captured ++ [au]
        published := s.published ++ [⟨slot, au⟩]
        consumers := s.consumers.map (·.push ⟨slot, au⟩) }
    | .scratch, some au => { s with turn := .idle, captured := s.captured ++ [au] }

/-- Every search finds a slot, and whoever lets no queued frame drop receives all of them. -/
structure Unstarved (s : CapturePath) : Prop where
  acquired : s.pool.exhausted = 0
  received : ∀ c ∈ s.consumers, c.sink.dropped = 0 →
    c.received ++ c.sink.q.map AuPtr.au = s.captured.drop c.since

end CapturePath

/-- So it is in every run with so many clients and such queues. -/
def NeverStarves (maxClients queueDepth : ℕ) : Prop :=
  ∀ ops, Always (CapturePath.step maxClients) CapturePath.Unstarved { queueDepth := queueDepth } ops

end Machino.Stream
