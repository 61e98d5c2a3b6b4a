import Machino.Rtp.RtpPacket

namespace Machino.Rtsp

open Bytes

def kMaxInterleaved : ℕ := 4096

def maxRtspRequest : ℕ := 8192

def dollar : UInt8 := 0x24

/-- The blank line behind the head of a request. -/
def blankLine : Bytes := [13, 10, 13, 10]

inductive Interleaved where
  | notOne | incomplete | tooLarge
  | frame (channel : ℕ) (data rest : Bytes)
  deriving DecidableEq

def takeInterleaved (buf : Bytes) : Interleaved :=
  if buf.head? ≠ some dollar then .notOne
  else if buf.length < 4 then .incomplete
  else
    let len := be16 buf 2
    if kMaxInterleaved < len then .tooLarge
    else if buf.length < 4 + len then .incomplete
    else .frame (byte buf 1) ((buf.drop 4).take len) (buf.drop (4 + len))

/-- The length up to the end of the first blank line. -/
def requestEnd : Bytes → Option ℕ
  | [] => none
  | b :: d => if blankLine.isPrefixOf (b :: d) then some 4 else (requestEnd d).map (· + 1)

/-- What a track has been set up with. -/
structure Track where
  setup : Bool := false
  tcp : Bool := false
  rtpCh : ℕ := 0
  deriving DecidableEq

/-- What requests and frames do to a session; a request may end the connection. -/
structure RtspServer (σ : Type*) where
  handleRequest : σ → Bytes → Bool × σ
  onBackchannel : σ → Bytes → σ
  back : σ → Track

inductive Handed where
  | request (text : Bytes)
  | frame (data : Bytes)
  deriving DecidableEq

/-- A connection, with what has been handed on. -/
structure Conn (σ : Type*) where
  session : σ
  inbuf : Bytes := []
  alive : Bool := true
  handed : List Handed := []

section loop

variable {σ : Type*} (server : RtspServer σ)

/-- Frames on other channels are RTCP and ignored. -/
def RtspServer.wants (s : σ) (channel : ℕ) : Bool :=
  (server.back s).setup && (server.back s).tcp && channel = (server.back s).rtpCh

namespace Conn

def takeFrame (channel : ℕ) (data rest : Bytes) (c : Conn σ) : Conn σ :=
  if server.wants c.session channel then
    { c with
      inbuf := rest
      session := server.onBackchannel c.session data
      handed := c.handed ++ [.frame data] }
  else { c with inbuf := rest }

def takeRequest (text rest : Bytes) (c : Conn σ) : Conn σ :=
  let r := server.handleRequest c.session text
  { c with inbuf := rest, session := r.2, alive := r.1, handed := c.handed ++ [.request text] }

/-- The loop over what has been received, which every pass makes shorter. -/
def drain : ℕ → Conn σ → Conn σ
  | 0, c => c
  | fuel + 1, c =>
    match takeInterleaved c.inbuf with
    | .frame channel data rest => drain fuel (c.takeFrame server channel data rest)
    | .tooLarge => { c with alive := false }
    | .incomplete => c
    | .notOne =>
      match requestEnd c.inbuf with
      | none => c
      | some n =>
        let c := c.takeRequest server (c.inbuf.take n) (c.inbuf.drop n)
        if c.alive then drain fuel c else c

/-- What may be left of a request or a frame that has not ended. -/
def bound (inbuf : Bytes) : ℕ :=
  if inbuf.head? = some dollar then 4 + kMaxInterleaved else maxRtspRequest

/-- A client that has closed is received nothing of. -/
def receive (c : Conn σ) (chunk : Bytes) : Conn σ :=
  if !c.alive then c
  else if chunk = [] then { c with alive := false }
  else
    let inbuf := c.inbuf ++ chunk
    let c := drain server inbuf.length { c with inbuf := inbuf }
    if c.alive ∧ bound c.inbuf < c.inbuf.length then { c with alive := false } else c

end Conn

end loop

open Bytes Conn

/-- A request is its head only; a frame is text of its own behind four bytes. -/
inductive Item where
  | request (text : Bytes)
  | frame (channel : UInt8) (data : Bytes)
  deriving DecidableEq

namespace Item

def bytes : Item → Bytes
  | request text => text
  | frame channel data => dollar :: channel :: ofBe16 data.length ++ data

/-- A request ends with its first blank line. -/
def WellFormed : Item → Prop
  | request text => text.head? ≠ some dollar ∧ requestEnd text = some text.length ∧
      text.length ≤ maxRtspRequest
  | frame _ data => data.length ≤ kMaxInterleaved

end Item

def wire (items : List Item) : Bytes := items.flatMap Item.bytes

section serve

variable {σ : Type*} (server : RtspServer σ)

/-- What is to be handed on, the session behind it, and whether the connection stays: all up to the
request that ends it. -/
def serve : σ → List Item → List Handed × σ × Bool
  | s, [] => ([], s, true)
  | s, .request text :: items =>
    let r := server.handleRequest s text
    if r.1 then
      let q := serve r.2 items
      (.request text :: q.1, q.2)
    else ([.request text], r.2, false)
  | s, .frame channel data :: items =>
    if server.wants s channel.toNat then
      let q := serve (server.onBackchannel s data) items
      (.frame data :: q.1, q.2)
    else serve s items

end serve

theorem requestEnd_le {a : Bytes} {n : ℕ} (h : requestEnd a = some n) : 4 ≤ n ∧ n ≤ a.length := by
  induction a generalizing n with
  | nil => cases h
  | cons x a ih =>
    rw [requestEnd] at h
    split at h
    · rename_i hstart
      cases h
      exact ⟨le_rfl, (List.isPrefixOf_iff_prefix.mp hstart).length_le⟩
    · obtain ⟨m, hm, rfl⟩ := Option.map_eq_some_iff.mp h
      have := ih hm
      simp only [List.length_cons]
      omega

theorem requestEnd_append {a : Bytes} {n : ℕ} (h : requestEnd a = some n) (b : Bytes) :
    requestEnd (a ++ b) = some n := by
  induction a generalizing n with
  | nil => cases h
  | cons x a ih =>
    have hlen := requestEnd_le h
    rw [requestEnd] at h
    rw [List.cons_append, requestEnd]
    -- four bytes that start a longer text start the text itself
    have hsame : blankLine.isPrefixOf (x :: (a ++ b)) = blankLine.isPrefixOf (x :: a) := by
      rw [Bool.eq_iff_iff, List.isPrefixOf_iff_prefix, List.isPrefixOf_iff_prefix]
      refine ⟨fun hp => ?_, fun hp => hp.trans ⟨b, rfl⟩⟩
      exact List.prefix_of_prefix_length_le hp ⟨b, rfl⟩ (hlen.1.trans hlen.2)
    rw [hsame]
    split at h
    · rename_i hstart
      rw [if_pos hstart]
      exact h
    · rename_i hstart
      obtain ⟨m, hm, rfl⟩ := Option.map_eq_some_iff.mp h
      rw [if_neg hstart, ih hm]
      rfl

/-- A request of which something is missing has no end. -/
theorem requestEnd_front {a b : Bytes} (h : requestEnd (a ++ b) = some (a ++ b).length)
    (hb : b ≠ []) : requestEnd a = none := by
  by_contra hne
  obtain ⟨n, hn⟩ := Option.ne_none_iff_exists'.mp hne
  have hend := h.symm.trans (requestEnd_append hn b)
  have hle := (requestEnd_le hn).2
  have hpos := List.length_pos_iff.mpr hb
  simp only [Option.some.injEq, List.length_append] at hend
  omega

theorem takeInterleaved_request {buf : Bytes} (h : buf.head? ≠ some dollar) :
    takeInterleaved buf = .notOne := if_pos h

/-- The length in front of a frame, whatever follows it. -/
theorem frame_length {channel : UInt8} {n : ℕ} (h : n ≤ kMaxInterleaved) (rest : Bytes) :
    be16 (dollar :: channel :: ofBe16 n ++ rest) 2 = n := by
  have hread := be16_ofBe16 [dollar, channel] rest n
  have hmod : n % 2 ^ 16 = n := Nat.mod_eq_of_lt (by unfold kMaxInterleaved at h; omega)
  rwa [hmod] at hread

theorem length_frame (channel : UInt8) (data : Bytes) :
    (Item.frame channel data).bytes.length = 4 + data.length := by
  simp [Item.bytes, ofBe16]
  omega

theorem takeInterleaved_frame {channel : UInt8} {data : Bytes}
    (h : data.length ≤ kMaxInterleaved) (rest : Bytes) :
    takeInterleaved ((Item.frame channel data).bytes ++ rest) =
      .frame channel.toNat data rest := by
  have hlen := length_frame channel data
  have hread : be16 ((Item.frame channel data).bytes ++ rest) 2 = data.length := by
    rw [Item.bytes, List.append_assoc]
    exact frame_length h (data ++ rest)
  have hdata : ((Item.frame channel data).bytes ++ rest).drop 4 = data ++ rest := by
    simp [Item.bytes, ofBe16]
  rw [takeInterleaved, if_neg (by simp [Item.bytes]), if_neg (by rw [List.length_append]; omega)]
  simp only [hread]
  rw [if_neg (Nat.not_lt.mpr h), if_neg (by rw [List.length_append]; omega), ← List.drop_drop,
    hdata, List.take_left, List.drop_left]
  rfl

/-- A frame of which something is missing is waited for. -/
theorem takeInterleaved_front {channel : UInt8} {data a b : Bytes}
    (h : data.length ≤ kMaxInterleaved) (hab : a ++ b = (Item.frame channel data).bytes)
    (hb : b ≠ []) (ha : a ≠ []) : takeInterleaved a = .incomplete := by
  obtain ⟨x, a, rfl⟩ := List.exists_cons_of_ne_nil ha
  have hx : x = dollar := (List.cons.inj hab).1
  have hlen := congrArg List.length hab
  rw [length_frame, List.length_append] at hlen
  have hpos := List.length_pos_iff.mpr hb
  rw [takeInterleaved, if_neg (by simp [hx])]
  split
  · rfl
  · rename_i hfour
    have hread : be16 (x :: a) 2 = data.length := by
      rw [← be16_append (x :: a) b (by omega), hab]
      exact frame_length h data
    simp only [hread]
    rw [if_neg (Nat.not_lt.mpr h), if_pos (by omega)]

namespace Item

theorem WellFormed.length_pos {i : Item} (h : i.WellFormed) : 0 < i.bytes.length := by
  cases i with
  | request text => exact lt_of_lt_of_le (by decide) (requestEnd_le h.2.1).1
  | frame channel data => rw [length_frame]; omega

end Item

section drain

variable {σ : Type*} (server : RtspServer σ)

/-- What a connection will have handed on, its session then and whether it stays. -/
def outcome (c : Conn σ) (items : List Item) : List Handed × σ × Bool :=
  (c.handed ++ (serve server c.session items).1, (serve server c.session items).2)

/-- What is left is to come of the items that have not been handed on. -/
structure Awaits (future : Bytes) (c : Conn σ) (items : List Item) : Prop where
  alive : c.alive = true
  wellFormed : ∀ i ∈ items, i.WellFormed
  bytes : c.inbuf ++ future = wire items

/-- A connection on its way to what is due: it has ended with that, or it awaits the rest and holds
less than one item. -/
inductive Due (future : Bytes) (due : List Handed × σ × Bool) (c : Conn σ) : Prop
  | ended : c.alive = false → (c.handed, c.session, false) = due → Due future due c
  | awaits (items : List Item) : Awaits future c items → outcome server c items = due →
      (∀ i ∈ items.head?, c.inbuf.length < i.bytes.length) → Due future due c

namespace Conn

theorem takeFrame_outcome (channel : UInt8) (data rest : Bytes) (c : Conn σ) (items : List Item) :
    outcome server (c.takeFrame server channel.toNat data rest) items =
      outcome server c (.frame channel data :: items) := by
  simp only [outcome, takeFrame, serve]
  split <;> simp

theorem takeRequest_outcome {text rest : Bytes} {c : Conn σ} (items : List Item)
    (h : (c.takeRequest server text rest).alive = true) :
    outcome server (c.takeRequest server text rest) items =
      outcome server c (.request text :: items) := by
  have hr : (server.handleRequest c.session text).1 = true := h
  simp [outcome, takeRequest, serve, hr]

theorem takeRequest_ended {text rest : Bytes} {c : Conn σ} (items : List Item)
    (h : (c.takeRequest server text rest).alive = false) :
    ((c.takeRequest server text rest).handed, (c.takeRequest server text rest).session, false) =
      outcome server c (.request text :: items) := by
  have hr : (server.handleRequest c.session text).1 = false := h
  simp [outcome, takeRequest, serve, hr]

/-- What a connection holds of an item that has not ended stays where it is. -/
theorem drain_front {fuel : ℕ} {c : Conn σ} {b : Bytes} {i : Item} (hi : i.WellFormed)
    (h : c.inbuf ++ b = i.bytes) (hb : b ≠ []) : drain server fuel c = c := by
  cases fuel with
  | zero => rfl
  | succ fuel =>
    rw [drain]
    by_cases ha : c.inbuf = []
    · rw [ha]
      rfl
    cases i with
    | frame channel data => rw [takeInterleaved_front hi h hb ha]
    | request text =>
      change c.inbuf ++ b = text at h
      have hhead : c.inbuf.head? ≠ some dollar := by
        have hd := hi.1
        rwa [← h, List.head?_append_of_ne_nil _ ha] at hd
      have hend : requestEnd c.inbuf = none := requestEnd_front (h ▸ hi.2.1) hb
      rw [takeInterleaved_request hhead, hend]

theorem drain_frame (fuel : ℕ) {c : Conn σ} {channel : UInt8} {data rest : Bytes}
    (hi : (Item.frame channel data).WellFormed)
    (h : c.inbuf = (Item.frame channel data).bytes ++ rest) :
    drain server (fuel + 1) c = drain server fuel (c.takeFrame server channel.toNat data rest) := by
  rw [drain, h, takeInterleaved_frame hi]

theorem drain_request (fuel : ℕ) {c : Conn σ} {text rest : Bytes}
    (hi : (Item.request text).WellFormed) (h : c.inbuf = text ++ rest) :
    drain server (fuel + 1) c =
      if (c.takeRequest server text rest).alive then
        drain server fuel (c.takeRequest server text rest)
      else c.takeRequest server text rest := by
  have hne : text ≠ [] := List.length_pos_iff.mp (Item.WellFormed.length_pos hi)
  have hhead : c.inbuf.head? ≠ some dollar := by
    rw [h, List.head?_append_of_ne_nil _ hne]
    exact hi.1
  rw [drain, takeInterleaved_request hhead]
  simp only [h, requestEnd_append hi.2.1, List.take_left, List.drop_left]

/-- What is held is the front of the next item, or that item and what follows it. -/
theorem front_or_whole {future : Bytes} {c : Conn σ} {i : Item} {items : List Item}
    (h : Awaits future c (i :: items)) :
    (∃ b, b ≠ [] ∧ c.inbuf ++ b = i.bytes) ∨
      ∃ rest, c.inbuf = i.bytes ++ rest ∧ rest ++ future = wire items := by
  have hbytes : c.inbuf ++ future = i.bytes ++ wire items := h.bytes
  obtain ⟨b, hb, hf⟩ | ⟨rest, hr, hf⟩ := List.append_eq_append_iff.mp hbytes
  · rcases eq_or_ne b [] with rfl | hne
    · exact .inr ⟨[], by simpa using hb.symm, hf⟩
    · exact .inl ⟨b, hne, hb.symm⟩
  · exact .inr ⟨rest, hr, hf.symm⟩

theorem takeFrame_awaits {channel : UInt8} {data rest future : Bytes} {c : Conn σ}
    {items : List Item} (h : Awaits future c (.frame channel data :: items))
    (hr : rest ++ future = wire items) :
    Awaits future (c.takeFrame server channel.toNat data rest) items := by
  refine ⟨?_, fun i hi => h.wellFormed i (.tail _ hi), ?_⟩
  · unfold takeFrame
    split
    · exact h.alive
    · exact h.alive
  · unfold takeFrame
    split
    · exact hr
    · exact hr

theorem takeRequest_awaits {text rest future : Bytes} {c : Conn σ} {items : List Item}
    (h : Awaits future c (.request text :: items)) (hr : rest ++ future = wire items)
    (hlive : (c.takeRequest server text rest).alive = true) :
    Awaits future (c.takeRequest server text rest) items :=
  ⟨hlive, fun i hi => h.wellFormed i (.tail _ hi), hr⟩

theorem takeFrame_inbuf (channel : ℕ) (data rest : Bytes) (c : Conn σ) :
    (c.takeFrame server channel data rest).inbuf = rest := by
  unfold takeFrame
  split
  · rfl
  · rfl

/-- The loop hands on what it holds, item by item. -/
theorem drain_due {future : Bytes} (items : List Item) {fuel : ℕ} {c : Conn σ}
    (h : Awaits future c items) (hfuel : c.inbuf.length ≤ fuel) :
    Due server future (outcome server c items) (drain server fuel c) := by
  induction items generalizing fuel c with
  | nil =>
    have hnone : c.inbuf = [] := (List.append_eq_nil_iff.mp h.bytes).1
    have hstay : drain server fuel c = c := by
      cases fuel with
      | zero => rfl
      | succ fuel =>
        rw [drain, hnone]
        rfl
    rw [hstay]
    exact .awaits [] h rfl (fun i hi => absurd hi (by simp))
  | cons i items ih =>
    have hi : i.WellFormed := h.wellFormed i (.head _)
    obtain ⟨b, hb, hfront⟩ | ⟨rest, hwhole, hr⟩ := front_or_whole h
    · rw [drain_front server hi hfront hb]
      refine .awaits (i :: items) h rfl fun j hj => ?_
      cases hj
      have hpos := List.length_pos_iff.mpr hb
      have hlen := congrArg List.length hfront
      rw [List.length_append] at hlen
      omega
    have hpos := hi.length_pos
    have hlen := congrArg List.length hwhole
    rw [List.length_append] at hlen
    -- a whole item is taken, so that less is left than there was fuel for
    obtain ⟨fuel, rfl⟩ : ∃ n, fuel = n + 1 := ⟨fuel - 1, by omega⟩
    cases i with
    | frame channel data =>
      rw [drain_frame server fuel hi hwhole, ← takeFrame_outcome server channel data rest]
      refine ih (takeFrame_awaits server h hr) ?_
      rw [takeFrame_inbuf]
      omega
    | request text =>
      rw [drain_request server fuel hi hwhole]
      split
      · rename_i hlive
        rw [← takeRequest_outcome server items hlive]
        refine ih (takeRequest_awaits server h hr hlive) ?_
        change rest.length ≤ fuel
        omega
      · rename_i hend
        have hdead := Bool.eq_false_iff.mpr hend
        exact .ended hdead (takeRequest_ended server items hdead)

/-- What is held of an item is never more than may be held. -/
theorem length_le_bound {a b : Bytes} {i : Item} (hi : i.WellFormed) (h : a ++ b = i.bytes)
    (hb : a.length < i.bytes.length) : a.length ≤ bound a := by
  rcases eq_or_ne a [] with rfl | ha
  · exact Nat.zero_le _
  cases i with
  | frame channel data =>
    have hhead : a.head? = some dollar := by
      have hd : (a ++ b).head? = a.head? := List.head?_append_of_ne_nil a ha
      rw [h] at hd
      exact hd.symm
    rw [length_frame] at hb
    rw [bound, if_pos hhead]
    have hd : data.length ≤ kMaxInterleaved := hi
    omega
  | request text =>
    have hhead : a.head? ≠ some dollar := by
      have hd := hi.1
      change a ++ b = text at h
      rwa [← h, List.head?_append_of_ne_nil _ ha] at hd
    rw [bound, if_neg hhead]
    exact hb.le.trans hi.2.2

theorem due_within {future : Bytes} {due : List Handed × σ × Bool} {c : Conn σ}
    (h : Due server future due c) : ¬(c.alive ∧ bound c.inbuf < c.inbuf.length) := by
  rintro ⟨hlive, hover⟩
  cases h with
  | ended hdead _ => simp [hlive] at hdead
  | awaits items haw _ hheld =>
    cases items with
    | nil =>
      rw [(List.append_eq_nil_iff.mp haw.bytes).1] at hover
      exact Nat.not_lt_zero _ hover
    | cons i items =>
      have hlt := hheld i rfl
      obtain ⟨b, _, hfront⟩ | ⟨rest, hwhole, _⟩ := front_or_whole haw
      · have := length_le_bound (haw.wellFormed i (.head _)) hfront hlt
        omega
      · rw [hwhole, List.length_append] at hlt
        omega

/-- One reception: the connection stays on its way. -/
theorem receive_due {chunk future : Bytes} (hne : chunk ≠ []) {due : List Handed × σ × Bool}
    {c : Conn σ} (h : Due server (chunk ++ future) due c) :
    Due server future due (c.receive server chunk) := by
  cases h with
  | ended hdead hdue =>
    have hstay : c.receive server chunk = c := by simp [receive, hdead]
    rw [hstay]
    exact .ended hdead hdue
  | awaits items haw hdue hheld =>
    have hnew : Awaits future { c with inbuf := c.inbuf ++ chunk } items :=
      ⟨haw.alive, haw.wellFormed, by rw [List.append_assoc]; exact haw.bytes⟩
    have hdrain := drain_due server items hnew le_rfl
    rw [show outcome server { c with inbuf := c.inbuf ++ chunk } items = due from hdue] at hdrain
    have hreceive : c.receive server chunk =
        drain server (c.inbuf ++ chunk).length { c with inbuf := c.inbuf ++ chunk } := by
      rw [receive, if_neg (by simp [haw.alive]), if_neg hne]
      exact if_neg (due_within server hdrain)
    rw [hreceive]
    exact hdrain

theorem receive_all_due {chunks : List Bytes} (hne : ∀ chunk ∈ chunks, chunk ≠ [])
    {due : List Handed × σ × Bool} {c : Conn σ} (h : Due server chunks.flatten due c) :
    Due server [] due (chunks.foldl (receive server) c) := by
  induction chunks generalizing c with
  | nil => exact h
  | cons chunk chunks ih =>
    rw [List.foldl_cons]
    exact ih (fun x hx => hne x (.tail _ hx)) (receive_due server (hne chunk (.head _)) h)

end Conn

/-- Requests without bodies and frames come out one by one and in their order, up to the request
that ends the connection, however their bytes were received. -/
theorem received_served {items : List Item} (hitems : ∀ i ∈ items, i.WellFormed)
    {chunks : List Bytes} (hne : ∀ chunk ∈ chunks, chunk ≠ [])
    (hwire : chunks.flatten = wire items) (s : σ) :
    let c := chunks.foldl (receive server) { session := s }
    (c.handed, c.session, c.alive) = serve server s items := by
  intro c
  have hstart : Due server chunks.flatten (serve server s items)
      ({ session := s } : Conn σ) :=
    .awaits items ⟨rfl, hitems, hwire⟩ rfl fun i hi =>
      (hitems i (List.mem_of_mem_head? hi)).length_pos
  cases receive_all_due server hne hstart with
  | ended hdead hdue => rw [← hdue, hdead]
  | awaits left haw hdue hheld =>
    -- nothing is to come, and an item that is held whole would have been handed on
    cases left with
    | nil =>
      rw [← hdue, haw.alive]
      simp [outcome, serve, c]
    | cons i left =>
      have hlt := hheld i rfl
      have hlen := congrArg List.length haw.bytes
      rw [wire, List.flatMap_cons] at hlen
      simp only [List.length_append, List.length_nil] at hlen
      omega

end drain

def ascii (text : String) : Bytes := text.toList.map fun ch => UInt8.ofNat ch.toNat

/-- Talkback on channel 4, as the frames played; all but TEARDOWN leaves the connection open. -/
def talkback : RtspServer (List Bytes) where
  handleRequest s text := (!(ascii "TEARDOWN").isPrefixOf text, s)
  onBackchannel s data := s ++ [data]
  back _ := { setup := true, tcp := true, rtpCh := 4 }

def optionsRequest : Bytes := ascii "OPTIONS * RTSP/1.0\r\nCSeq: 2\r\n\r\n"

/-- Receiver reports arrive on channel 5; the second chunk starts inside the first frame. -/
theorem received_served_talkback :
    let c := [[dollar, 4, 0], [2, 1, 2, dollar, 5, 0, 1, 3] ++ optionsRequest].foldl
      (receive talkback) { session := [] }
    (c.handed, c.session, c.alive) =
      ([.frame [1, 2], .request optionsRequest], [[1, 2]], true) :=
  (@received_served _ talkback [.frame 4 [1, 2], .frame 5 [3], .request optionsRequest]
    (by
      rw [List.forall_mem_cons, List.forall_mem_cons, List.forall_mem_singleton]
      refine ⟨?_, ?_, ?_⟩
      · change 2 ≤ kMaxInterleaved
        decide
      · change 1 ≤ kMaxInterleaved
        decide
      · change optionsRequest.head? ≠ _ ∧ _ ∧ optionsRequest.length ≤ _
        decide +kernel)
    [[dollar, 4, 0], [2, 1, 2, dollar, 5, 0, 1, 3] ++ optionsRequest]
    (by decide +kernel) (by decide +kernel) []).trans (by decide +kernel)

def parametersHead : Bytes :=
  ascii "SET_PARAMETER * RTSP/1.0\r\nCSeq: 1\r\nContent-Length: 5\r\n\r\n"

/-- The body of the first request is read as the start of the second. -/
theorem not_bodies_skipped :
    let c := receive talkback { session := [] } (parametersHead ++ ascii "hello" ++ optionsRequest)
    c.handed = [.request parametersHead, .request (ascii "hello" ++ optionsRequest)] ∧
      c.handed ≠ [.request (parametersHead ++ ascii "hello"), .request optionsRequest] ∧
      c.handed ≠ [.request parametersHead, .request optionsRequest] := by
  decide +kernel

end Machino.Rtsp
