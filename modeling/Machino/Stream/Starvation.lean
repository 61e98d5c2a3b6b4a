import Machino.Stream.AuPool

namespace Machino.Stream

open Runs

namespace AuPool

/-- A search that finds nothing has met references to all the slots it went over. -/
theorem scan_eq_none {busy : ℕ → Bool} {slots n next : ℕ} (hnext : next < slots)
    (h : (scan busy slots n next).1 = none) : ∀ i < n, busy ((next + i) % slots) = true := by
  induction n generalizing next with
  | zero => exact fun i hi => absurd hi (Nat.not_lt_zero i)
  | succ n ih =>
    unfold scan at h
    split at h
    · rename_i hbusy
      have hrest := ih (Nat.mod_lt _ (by omega)) h
      intro i hi
      cases i with
      | zero => rwa [Nat.add_zero, Nat.mod_eq_of_lt hnext]
      | succ i =>
        have hi' := hrest i (by omega)
        rwa [Nat.mod_add_mod, Nat.add_assoc, Nat.add_comm 1 i] at hi'
    · cases h

theorem all_busy_of_scan {busy : ℕ → Bool} {slots next : ℕ} (hnext : next < slots)
    (h : (scan busy slots slots next).1 = none) : ∀ i < slots, busy i = true := by
  intro i hi
  have hb := scan_eq_none hnext h ((i + (slots - next)) % slots) (Nat.mod_lt _ (by omega))
  have heq : (next + (i + (slots - next)) % slots) % slots = i := by
    rw [Nat.add_mod_mod, show next + (i + (slots - next)) = i + slots by omega,
      Nat.add_mod_right, Nat.mod_eq_of_lt hi]
  rwa [heq] at hb

theorem scan_next_lt (busy : ℕ → Bool) {slots n next : ℕ} (hnext : next < slots) :
    (scan busy slots n next).2 < slots := by
  induction n generalizing next with
  | zero => exact hnext
  | succ n ih =>
    unfold scan
    split
    · exact ih (Nat.mod_lt _ (by omega))
    · exact Nat.mod_lt _ (by omega)

theorem scan_of_busy {busy : ℕ → Bool} {slots n next : ℕ} (hbusy : ∀ i < slots, busy i = true)
    (hnext : next < slots) : (scan busy slots n next).1 = none := by
  induction n generalizing next with
  | zero => rfl
  | succ n ih =>
    unfold scan
    rw [if_pos (hbusy next hnext)]
    exact ih (Nat.mod_lt _ (by omega))

end AuPool

/-- A consumer's queue is the end of what was published, no longer than its depth, and unless
frames were dropped it has been given all of them. -/
structure Consumer.Inv (depth : ℕ) (captured : List AccessUnit) (published : List AuPtr)
    (c : Consumer) : Prop where
  isOpen : c.sink.closed = false
  depth : c.sink.depth = depth
  bounded : c.sink.q.length ≤ c.sink.depth
  window : c.sink.q <:+ published
  since : c.since ≤ captured.length
  lossless : c.sink.dropped = 0 → c.sink.disc = false ∧
    c.received ++ c.sink.q.map AuPtr.au = captured.drop c.since

namespace CapturePath

/-- The depth a queue really has. -/
def depthOf (queueDepth : ℕ) : ℕ := if queueDepth = 0 then 1 else queueDepth

structure Inv (maxClients : ℕ) (s : CapturePath) : Prop where
  slots : s.pool.slots = 16
  next : s.pool.next < 16
  exhausted : s.pool.exhausted = 0
  turn : s.turn ≠ .scratch
  clients : s.consumers.length ≤ maxClients
  consumers : ∀ c ∈ s.consumers, c.Inv (depthOf s.queueDepth) s.captured s.published

theorem Inv.unstarved {maxClients : ℕ} {s : CapturePath} (h : s.Inv maxClients) : s.Unstarved where
  acquired := h.exhausted
  received c hc hd := ((h.consumers c hc).lossless hd).2

end CapturePath

namespace Consumer

variable {depth : ℕ} {captured : List AccessUnit} {published : List AuPtr} {c : Consumer}

theorem Inv.release (h : c.Inv depth captured published) : c.release.Inv depth captured published :=
  ⟨h.isOpen, h.depth, h.bounded, h.window, h.since, h.lossless⟩

theorem Inv.pop (h : c.Inv depth captured published) : c.pop.Inv depth captured published := by
  unfold Consumer.pop
  have hp := c.sink.popped_pop
  generalize c.sink.pop = r at hp
  cases hp with
  | @next p q hd hq =>
    have hlen := h.bounded
    rw [hq, List.length_cons] at hlen
    refine ⟨h.isOpen, h.depth, by dsimp only; omega, ?_, h.since, fun hz => ⟨hd, ?_⟩⟩
    · exact (List.suffix_cons p q).trans (hq ▸ h.window)
    · have hall := (h.lossless hz).2
      rw [hq, List.map_cons] at hall
      rw [List.append_assoc]
      exact hall
  | @resumed p q n hd hq =>
    have hsuf := (List.suffix_cons p q).trans hq
    refine ⟨h.isOpen, h.depth, hsuf.length_le.trans h.bounded, hsuf.trans h.window, h.since,
      fun hz => ?_⟩
    -- what waits for a key frame has dropped some
    have hz' : c.sink.dropped = 0 := by simp at hz; omega
    exact absurd ((h.lossless hz').1.symm.trans hd) Bool.false_ne_true
  | drained n hq =>
    refine ⟨h.isOpen, h.depth, Nat.zero_le _, List.nil_suffix, h.since, fun hz => ?_⟩
    have hz' : c.sink.dropped = 0 := by simp at hz; omega
    obtain ⟨hd, hall⟩ := h.lossless hz'
    refine ⟨hd, ?_⟩
    have hnil : c.sink.q = [] := hq.resolve_right (by simp [hd])
    rwa [hnil] at hall

theorem Inv.push (h : c.Inv depth captured published) (p : AuPtr) :
    (c.push p).Inv depth (captured ++ [p.au]) (published ++ [p]) := by
  have hsince : c.since ≤ (captured ++ [p.au]).length := by
    simpa using Nat.le_succ_of_le h.since
  obtain ⟨l, hl⟩ := h.window
  have hpos := c.sink.depth_pos
  unfold Consumer.push
  have hp := PtrSink.pushed_push p h.isOpen
  generalize c.sink.push p = s at hp
  cases hp with
  | room hlt =>
    refine ⟨h.isOpen, h.depth, by simp; omega, ⟨l, ?_⟩, hsince, fun hz => ?_⟩
    · rw [← hl, List.append_assoc]
    · obtain ⟨hd, hall⟩ := h.lossless hz
      refine ⟨hd, ?_⟩
      dsimp only
      rw [List.map_append, ← List.append_assoc, hall, List.drop_append_of_le_length h.since]
      rfl
  | flushed n hfull hn =>
    refine ⟨h.isOpen, h.depth, hpos, List.suffix_append _ _, hsince, fun hz => ?_⟩
    dsimp only at hz
    omega
  | shed old q hq =>
    have hlen := h.bounded
    rw [hq, List.length_cons] at hlen
    refine ⟨h.isOpen, h.depth, by simpa using hlen, ⟨l ++ [old], ?_⟩, hsince,
      fun hz => absurd hz (Nat.succ_ne_zero _)⟩
    rw [← hl, hq]
    simp

/-- What a consumer refers to is in its hand or among the latest frames. -/
theorem Inv.refs_subset (h : c.Inv depth captured published) :
    c.refs ⊆ (published.drop (published.length - depth)).map AuPtr.slot ++
      (c.hand.map AuPtr.slot).toList := by
  intro slot hslot
  unfold refs at hslot
  rw [List.map_append, List.mem_append] at hslot
  rw [List.mem_append]
  rcases hslot with hq | hhand
  · left
    obtain ⟨p, hp, rfl⟩ := List.mem_map.mp hq
    refine List.mem_map_of_mem ?_
    obtain ⟨l, hl⟩ := h.window
    have hlen := h.depth ▸ h.bounded
    have hle : (l ++ c.sink.q).length - depth ≤ l.length := by
      rw [List.length_append]
      omega
    rw [← hl, List.drop_append_of_le_length hle]
    exact List.mem_append_right _ hp
  · right
    cases hh : c.hand with
    | none => simp [hh] at hhand
    | some p => simpa [hh] using hhand

end Consumer

namespace CapturePath

variable {maxClients : ℕ} {s : CapturePath}

/-- Between them the consumers refer to a window of frames, and to one more each. -/
theorem Inv.card_refs (h : s.Inv maxClients) :
    s.refs.toFinset.card ≤ depthOf s.queueDepth + maxClients := by
  let window := (s.published.drop (s.published.length - depthOf s.queueDepth)).map AuPtr.slot
  let hands := s.consumers.flatMap fun c => (c.hand.map AuPtr.slot).toList
  have hsub : s.refs.toFinset ⊆ (window ++ hands).toFinset := by
    intro slot hslot
    rw [List.mem_toFinset] at hslot ⊢
    obtain ⟨c, hc, hmem⟩ := List.mem_flatMap.mp hslot
    rcases List.mem_append.mp ((h.consumers c hc).refs_subset hmem) with hw | hhand
    · exact List.mem_append_left _ hw
    · exact List.mem_append_right _ (List.mem_flatMap.mpr ⟨c, hc, hhand⟩)
  have hwindow : window.length ≤ depthOf s.queueDepth := by
    simp only [window, List.length_map, List.length_drop]
    omega
  have hhands : hands.length ≤ s.consumers.length := by
    have hone (cs : List Consumer) :
        (cs.flatMap fun c => (c.hand.map AuPtr.slot).toList).length ≤ cs.length := by
      induction cs with
      | nil => exact Nat.le_refl 0
      | cons c cs ih =>
        rw [List.flatMap_cons, List.length_append, List.length_cons]
        have : (c.hand.map AuPtr.slot).toList.length ≤ 1 := by cases c.hand <;> simp
        omega
    exact hone s.consumers
  have hcard := (Finset.card_le_card hsub).trans (List.toFinset_card_le _)
  rw [List.length_append] at hcard
  have := h.clients
  omega

/-- There are no clients, or too few for the pool. -/
def Fits (maxClients queueDepth : ℕ) : Prop :=
  maxClients = 0 ∨ depthOf queueDepth + maxClients < 16

theorem Inv.card_refs_lt (h : s.Inv maxClients) (hfit : Fits maxClients s.queueDepth) :
    s.refs.toFinset.card < 16 := by
  rcases hfit with rfl | hfit
  · have hnil : s.consumers = [] := List.length_eq_zero_iff.mp (Nat.le_zero.mp h.clients)
    unfold refs
    rw [hnil]
    decide
  · exact h.card_refs.trans_lt hfit

theorem Inv.acquire (h : s.Inv maxClients) (hfit : Fits maxClients s.queueDepth) :
    ∃ slot next, s.pool.acquire (fun slot => slot ∈ s.refs) =
      (some slot, { s.pool with next := next }) ∧ next < 16 := by
  unfold AuPool.acquire
  have hnext := h.slots.symm ▸ h.next
  have hlt := AuPool.scan_next_lt (fun slot => slot ∈ s.refs) (n := s.pool.slots) hnext
  cases hscan : AuPool.scan (fun slot => decide (slot ∈ s.refs)) s.pool.slots s.pool.slots
      s.pool.next with
  | mk found next =>
    cases found with
    | some slot => exact ⟨slot, next, rfl, by rw [hscan, h.slots] at hlt; exact hlt⟩
    | none =>
      have hall := AuPool.all_busy_of_scan hnext (by rw [hscan])
      have hsub : Finset.range 16 ⊆ s.refs.toFinset := by
        intro i hi
        rw [List.mem_toFinset]
        simpa using hall i (h.slots.symm ▸ Finset.mem_range.mp hi)
      have hcard := (Finset.card_le_card hsub).trans_lt (h.card_refs_lt hfit)
      rw [Finset.card_range] at hcard
      omega

theorem mem_modify {α : Type*} {l : List α} {k : ℕ} {f : α → α} {a : α} (h : a ∈ l.modify k f) :
    ∃ b ∈ l, a = b ∨ a = f b := by
  obtain ⟨i, hi⟩ := List.mem_iff_getElem?.mp h
  rw [List.getElem?_modify] at hi
  cases hb : l[i]? with
  | none => simp [hb] at hi
  | some b =>
    refine ⟨b, List.mem_of_getElem? hb, ?_⟩
    by_cases hk : k = i
    · simp [hb, hk] at hi
      exact .inr hi.symm
    · simp [hb, hk] at hi
      exact .inl hi.symm

theorem modify_concat {α : Type*} (f : α → α) (l : List α) (a : α) {k : ℕ} (hk : k = l.length) :
    (l ++ [a]).modify k f = l ++ [f a] := by
  subst hk
  induction l with
  | nil => rfl
  | cons b l ih => exact congrArg (b :: ·) ih

theorem Inv.step (h : s.Inv maxClients) (hfit : Fits maxClients s.queueDepth)
    (op : CaptureOp) : (s.step maxClients op).Inv maxClients := by
  obtain ⟨hslots, hnext, hex, hturn, hclients, hcons⟩ := h
  have hmod (k : ℕ) (f : Consumer → Consumer)
      (hf : ∀ c, c.Inv (depthOf s.queueDepth) s.captured s.published →
        (f c).Inv (depthOf s.queueDepth) s.captured s.published) :
      Inv maxClients { s with consumers := s.consumers.modify k f } := by
    refine ⟨hslots, hnext, hex, hturn, by simpa using hclients, fun c hc => ?_⟩
    obtain ⟨b, hb, rfl | rfl⟩ := mem_modify hc
    · exact hcons _ hb
    · exact hf b (hcons b hb)
  cases op with
  | subscribe =>
    unfold CapturePath.step
    dsimp only
    split
    · rename_i hlt
      have hroom (c : Consumer) : (s.consumers ++ [c]).length ≤ maxClients := by
        rw [List.length_append, List.length_singleton]
        exact hlt
      refine ⟨hslots, hnext, hex, hturn, hroom _, fun c hc => ?_⟩
      rcases List.mem_append.mp hc with hc | hc
      · exact hcons c hc
      · rw [List.mem_singleton.mp hc]
        exact ⟨rfl, rfl, Nat.zero_le _, List.nil_suffix, Nat.le_refl _,
          fun _ => ⟨rfl, (List.drop_length).symm⟩⟩
    · exact ⟨hslots, hnext, hex, hturn, hclients, hcons⟩
  | unsubscribe k =>
    refine ⟨hslots, hnext, hex, hturn, ?_, fun c hc => hcons c (List.mem_of_mem_eraseIdx hc)⟩
    exact (List.eraseIdx_sublist _ _).length_le.trans hclients
  | pop k => exact hmod k _ fun c hc => hc.pop
  | release k => exact hmod k _ fun c hc => hc.release
  | acquire =>
    unfold CapturePath.step
    dsimp only
    split
    · obtain ⟨slot, next, heq, hlt⟩ :=
        Inv.acquire ⟨hslots, hnext, hex, hturn, hclients, hcons⟩ hfit
      rw [heq]
      exact ⟨hslots, hlt, hex, nofun, hclients, hcons⟩
    · exact ⟨hslots, hnext, hex, hturn, hclients, hcons⟩
    · exact ⟨hslots, hnext, hex, hturn, hclients, hcons⟩
  | fetch frame =>
    unfold CapturePath.step
    dsimp only
    split
    · exact ⟨hslots, hnext, hex, hturn, hclients, hcons⟩
    · exact ⟨hslots, hnext, hex, nofun, hclients, hcons⟩
    · exact ⟨hslots, hnext, hex, nofun, hclients, hcons⟩
    · rename_i slot au _
      refine ⟨hslots, hnext, hex, nofun, by simpa using hclients, fun c hc => ?_⟩
      obtain ⟨b, hb, rfl⟩ := List.mem_map.mp hc
      exact (hcons b hb).push ⟨slot, au⟩
    · rename_i hscratch
      exact absurd hscratch hturn

theorem queueDepth_step (maxClients : ℕ) (s : CapturePath) (op : CaptureOp) :
    (s.step maxClients op).queueDepth = s.queueDepth := by
  cases op with
  | subscribe =>
    unfold CapturePath.step
    dsimp only
    split <;> rfl
  | acquire =>
    unfold CapturePath.step
    dsimp only
    split
    · split <;> rfl
    · rfl
    · rfl
  | fetch frame =>
    unfold CapturePath.step
    dsimp only
    split <;> rfl
  | unsubscribe k => rfl
  | pop k => rfl
  | release k => rfl

theorem Inv.start (maxClients queueDepth : ℕ) : Inv maxClients { queueDepth := queueDepth } where
  slots := rfl
  next := Nat.succ_pos 15
  exhausted := rfl
  turn := nofun
  clients := Nat.zero_le _
  consumers := nofun

theorem neverStarves_of_fits {maxClients queueDepth : ℕ} (hfit : Fits maxClients queueDepth) :
    NeverStarves maxClients queueDepth := by
  intro ops js _
  have hrun : (run (step maxClients) { queueDepth := queueDepth } js).Inv maxClients ∧
      (run (step maxClients) { queueDepth := queueDepth } js).queueDepth = queueDepth := by
    refine run_invariant (P := fun s : CapturePath => s.Inv maxClients ∧ s.queueDepth = queueDepth) ?_
      ⟨Inv.start _ _, rfl⟩ js
    rintro s op ⟨hi, rfl⟩
    exact ⟨hi.step hfit op, queueDepth_step _ _ _⟩
  exact hrun.1.unstarved

/-- A client comes, takes one frame in hand and pops no more. -/
def stall (k : ℕ) : List CaptureOp := [.subscribe, .acquire, .fetch (some {}), .pop k]

def stalls (n : ℕ) : List CaptureOp := (List.range n).flatMap stall

/-- A frame that nobody pops. -/
def unpopped : List CaptureOp := [.acquire, .fetch (some {})]

def frames (n : ℕ) : List CaptureOp := (List.replicate n unpopped).flatten

def hands (s : CapturePath) : List ℕ := s.consumers.filterMap fun c => c.hand.map AuPtr.slot

/-- So many slots have been used, each once. -/
structure Used (n : ℕ) (s : CapturePath) : Prop where
  turn : s.turn = .idle
  pool : s.pool = { slots := 16, next := n % 16 }
  refs : ∀ slot ∈ s.refs, slot < n

theorem Used.acquire {n : ℕ} (h : s.Used n) (hn : n < 16) :
    s.step maxClients .acquire =
      { s with pool := { slots := 16, next := (n + 1) % 16 }, turn := .filling n } := by
  have hfree : ¬ n ∈ s.refs := fun hmem => absurd (h.refs n hmem) (Nat.lt_irrefl n)
  unfold CapturePath.step
  rw [h.turn, h.pool, Nat.mod_eq_of_lt hn]
  simp [AuPool.acquire, AuPool.scan, hfree]

theorem refs_push_subset (p : AuPtr) (c : Consumer) : (c.push p).refs ⊆ c.refs ++ [p.slot] := by
  have hq : ∀ r ∈ (c.sink.push p).q, r ∈ c.sink.q ∨ r = p := by
    intro r hr
    unfold PtrSink.push at hr
    split at hr
    · exact .inl hr
    · split at hr
      · split at hr
        · exact .inr (List.mem_singleton.mp hr)
        · rcases List.mem_append.mp hr with hr | hr
          · exact .inl (List.mem_of_mem_tail hr)
          · exact .inr (List.mem_singleton.mp hr)
      · rcases List.mem_append.mp hr with hr | hr
        · exact .inl hr
        · exact .inr (List.mem_singleton.mp hr)
  intro slot hslot
  obtain ⟨r, hr, rfl⟩ := List.mem_map.mp hslot
  rw [List.mem_append, List.mem_singleton]
  rcases List.mem_append.mp hr with hr | hr
  · rcases hq r hr with hr | rfl
    · exact .inl (List.mem_map_of_mem (List.mem_append_left _ hr))
    · exact .inr rfl
  · exact .inl (List.mem_map_of_mem (List.mem_append_right _ hr))

/-- The next frame goes into the next slot. -/
theorem Used.frame (maxClients : ℕ) {n : ℕ} (h : s.Used n) (hn : n < 16) :
    (run (step maxClients) s unpopped).Used (n + 1) ∧
      (run (step maxClients) s unpopped).consumers = s.consumers.map (·.push ⟨n, {}⟩) ∧
      (run (step maxClients) s unpopped).queueDepth = s.queueDepth := by
  have hrun : run (step maxClients) s unpopped =
      { s with
        pool := { slots := 16, next := (n + 1) % 16 }
        turn := .idle
        captured := s.captured ++ [{}]
        published := s.published ++ [⟨n, {}⟩]
        consumers := s.consumers.map (·.push ⟨n, {}⟩) } := by
    unfold unpopped
    rw [run_cons, run_cons, run_nil, h.acquire hn]
    rfl
  rw [hrun]
  refine ⟨⟨rfl, rfl, fun slot hslot => ?_⟩, rfl, rfl⟩
  obtain ⟨c, hc, hmem⟩ := List.mem_flatMap.mp hslot
  obtain ⟨b, hb, rfl⟩ := List.mem_map.mp hc
  rcases List.mem_append.mp (refs_push_subset _ b hmem) with hold | hnew
  · exact Nat.lt_succ_of_lt (h.refs slot (List.mem_flatMap.mpr ⟨b, hb, hold⟩))
  · rw [List.mem_singleton.mp hnew]
    exact Nat.lt_succ_self n

theorem hands_push (p : AuPtr) (cs : List Consumer) :
    (cs.map (·.push p)).filterMap (fun c => c.hand.map AuPtr.slot) =
      cs.filterMap fun c => c.hand.map AuPtr.slot := by
  rw [List.filterMap_map]
  rfl

/-- The first `n` slots are in the hands of clients, and the last client's queue is empty. -/
structure Stalled (depth n : ℕ) (s : CapturePath) : Prop extends Used n s where
  hands : s.hands = List.range n
  length : s.consumers.length = n
  queueDepth : s.queueDepth = depth
  last : ∀ c ∈ s.consumers.getLast?, c.sink.closed = false ∧ c.sink.depth = depthOf depth ∧
    c.sink.q = []

theorem Stalled.stall {depth n : ℕ} (h : s.Stalled depth n) (hn : n < 16) (hc : n < maxClients) :
    (run (step maxClients) s (stall n)).Stalled depth (n + 1) := by
  let new : Consumer := { sink := .create s.queueDepth, since := s.captured.length }
  have hsub : s.step maxClients .subscribe = { s with consumers := s.consumers ++ [new] } := by
    unfold CapturePath.step
    dsimp only
    rw [if_pos (by rw [h.length]; exact hc)]
  have hused : Used n { s with consumers := s.consumers ++ [new] } := by
    refine ⟨h.turn, h.pool, fun slot hslot => h.refs slot ?_⟩
    simpa [CapturePath.refs, Consumer.refs, new, PtrSink.create] using hslot
  obtain ⟨hused', hcons, hdepth⟩ := hused.frame maxClients hn
  have hsplit : run (step maxClients) s (CapturePath.stall n) =
      (run (step maxClients) { s with consumers := s.consumers ++ [new] } unpopped).step
        maxClients (.pop n) := by
    rw [← hsub]
    rfl
  rw [hsplit]
  generalize run (step maxClients) { s with consumers := s.consumers ++ [new] } unpopped = s'
    at hused' hcons hdepth
  -- the newcomer has the frame in its queue, and takes it in hand
  have hpush : new.push ⟨n, {}⟩ = { new with sink := { new.sink with q := [⟨n, {}⟩] } } :=
    congrArg (fun sink => { new with sink := sink })
      (PtrSink.push_room ⟨n, {}⟩ (s := new.sink) rfl new.sink.depth_pos)
  have hpop : (new.push ⟨n, {}⟩).pop = { new with hand := some ⟨n, {}⟩, received := [{}] } := by
    rw [hpush]
    rfl
  have hmod : s'.consumers.modify n Consumer.pop =
      s.consumers.map (·.push ⟨n, {}⟩) ++ [(new.push ⟨n, {}⟩).pop] := by
    rw [hcons, List.map_append, ← h.length]
    exact modify_concat Consumer.pop _ _ (List.length_map _).symm
  have hstep : s'.step maxClients (.pop n) = { s' with
      consumers := s.consumers.map (·.push ⟨n, {}⟩) ++ [(new.push ⟨n, {}⟩).pop] } := by
    rw [← hmod]
    rfl
  rw [hstep, hpop]
  refine ⟨⟨hused'.turn, hused'.pool, fun slot hslot => ?_⟩, ?_, by simp [h.length],
    hdepth.trans h.queueDepth, fun c hlast => ?_⟩
  · obtain ⟨c, hmem, href⟩ := List.mem_flatMap.mp hslot
    rcases List.mem_append.mp hmem with hmem | hmem
    · refine hused'.refs slot (List.mem_flatMap.mpr ⟨c, ?_, href⟩)
      rw [hcons, List.map_append]
      exact List.mem_append_left _ hmem
    · rw [List.mem_singleton.mp hmem] at href
      have heq : slot = n := by simpa [Consumer.refs, new, PtrSink.create] using href
      omega
  · have hold : s.hands = List.range n := h.hands
    unfold CapturePath.hands at hold ⊢
    rw [List.filterMap_append, hands_push, hold, List.range_succ]
    rfl
  · rw [List.getLast?_concat, Option.mem_some_iff] at hlast
    subst hlast
    exact ⟨rfl, by rw [← h.queueDepth]; rfl, rfl⟩

theorem stalled_stalls (queueDepth : ℕ) {n : ℕ} (hn : n ≤ 16) (hc : n ≤ maxClients) :
    (run (step maxClients) { queueDepth := queueDepth } (stalls n)).Stalled queueDepth n := by
  induction n with
  | zero => exact ⟨⟨rfl, rfl, nofun⟩, rfl, rfl, rfl, nofun⟩
  | succ n ih =>
    unfold stalls
    rw [List.range_succ, List.flatMap_append, run_append]
    exact (ih (by omega) (by omega)).stall (by omega) (by omega)

/-- Besides, the queue of the last client holds the slots used since. -/
structure Filled (depth n t : ℕ) (s : CapturePath) : Prop extends Used (n + t) s where
  hands : s.hands = List.range n
  last : ∃ front c, s.consumers = front ++ [c] ∧ c.sink.closed = false ∧ c.sink.depth = depth ∧
    c.sink.q.map AuPtr.slot = List.range' n t

theorem Filled.frame {depth n t : ℕ} (h : s.Filled depth n t) (hn : n + t < 16) (ht : t < depth) :
    (run (step maxClients) s unpopped).Filled depth n (t + 1) := by
  obtain ⟨front, c, hcons, hopen, hdepth, hslots⟩ := h.last
  obtain ⟨hused, hcons', -⟩ := h.toUsed.frame maxClients hn
  have hlen : c.sink.q.length = t := by
    have := congrArg List.length hslots
    simpa using this
  have hroom := PtrSink.push_room ⟨n + t, {}⟩ hopen (by omega : c.sink.q.length < c.sink.depth)
  refine ⟨hused, ?_, front.map (·.push ⟨n + t, {}⟩), c.push ⟨n + t, {}⟩, ?_, ?_, ?_, ?_⟩
  · have hold : s.hands = List.range n := h.hands
    unfold CapturePath.hands at hold ⊢
    rw [hcons', hands_push, hold]
  · rw [hcons', hcons, List.map_append]
    rfl
  · unfold Consumer.push
    rw [hroom]
    exact hopen
  · unfold Consumer.push
    rw [hroom]
    exact hdepth
  · unfold Consumer.push
    rw [hroom]
    dsimp only
    rw [List.map_append, hslots, List.range'_concat, Nat.one_mul]
    rfl

theorem Filled.frames {depth n t : ℕ} (h : s.Filled depth n 0) (hn : n + t ≤ 16) (ht : t ≤ depth) :
    (run (step maxClients) s (frames t)).Filled depth n t := by
  induction t with
  | zero => exact h
  | succ t ih =>
    unfold CapturePath.frames
    rw [List.replicate_succ', List.flatten_concat, run_append]
    exact (ih (by omega) (by omega)).frame (by omega) (by omega)

/-- With all slots in hands and in one queue the next search fails. -/
theorem Filled.exhausted {depth n t : ℕ} (h : s.Filled depth n t) (hn : n + t = 16) :
    (s.step maxClients .acquire).pool.exhausted = 1 := by
  obtain ⟨front, c, hcons, -, -, hslots⟩ := h.last
  have hbusy (slot : ℕ) (hlt : slot < 16) : slot ∈ s.refs := by
    by_cases hslot : slot < n
    · have hmem : slot ∈ s.hands := h.hands ▸ List.mem_range.mpr hslot
      obtain ⟨b, hb, heq⟩ := List.mem_filterMap.mp hmem
      refine List.mem_flatMap.mpr ⟨b, hb, ?_⟩
      obtain ⟨p, hp, rfl⟩ := Option.map_eq_some_iff.mp heq
      unfold Consumer.refs
      rw [hp]
      exact List.mem_map_of_mem (List.mem_append_right _ List.mem_cons_self)
    · have hmem : slot ∈ c.sink.q.map AuPtr.slot := by
        rw [hslots, List.mem_range'_1]
        omega
      refine List.mem_flatMap.mpr ⟨c, hcons ▸ List.mem_append_right _ List.mem_cons_self, ?_⟩
      unfold Consumer.refs
      rw [List.map_append]
      exact List.mem_append_left _ hmem
  have hscan : (AuPool.scan (fun slot => decide (slot ∈ s.refs)) 16 16 0).1 = none :=
    AuPool.scan_of_busy (fun i hi => decide_eq_true (hbusy i hi)) (by decide)
  unfold CapturePath.step AuPool.acquire
  rw [h.turn, h.pool, hn]
  dsimp only
  rw [Nat.mod_self]
  cases hr : AuPool.scan (fun slot => decide (slot ∈ s.refs)) 16 16 0 with
  | mk found next =>
    rw [hr] at hscan
    cases hscan
    rfl

theorem exists_filled (queueDepth : ℕ) (hc : 0 < maxClients)
    (hfull : 16 ≤ depthOf queueDepth + maxClients) :
    ∃ ops, ∃ n t, n + t = 16 ∧
      (run (step maxClients) { queueDepth := queueDepth } ops).Filled (depthOf queueDepth) n t := by
  by_cases hn : 16 ≤ depthOf queueDepth
  · -- one queue is long enough for all slots
    refine ⟨.subscribe :: frames 16, 0, 16, rfl, ?_⟩
    rw [run_cons]
    refine Filled.frames ?_ (by omega) hn
    have hsub : step maxClients { queueDepth := queueDepth } .subscribe =
        { queueDepth := queueDepth, consumers := [{ sink := .create queueDepth, since := 0 }] } := by
      unfold step
      dsimp only
      rw [if_pos (show ([] : List Consumer).length < maxClients from hc)]
      rfl
    rw [hsub]
    exact ⟨⟨rfl, rfl, nofun⟩, rfl, [], _, rfl, rfl, rfl, rfl⟩
  · refine ⟨stalls (16 - depthOf queueDepth) ++ frames (depthOf queueDepth),
      16 - depthOf queueDepth, depthOf queueDepth, by omega, ?_⟩
    rw [run_append]
    have hst : (run (step maxClients) { queueDepth := queueDepth }
        (stalls (16 - depthOf queueDepth))).Stalled queueDepth (16 - depthOf queueDepth) :=
      stalled_stalls queueDepth (by omega) (by omega)
    refine Filled.frames ⟨hst.toUsed, hst.hands, ?_⟩ (by omega) le_rfl
    generalize run (step maxClients) { queueDepth := queueDepth }
      (stalls (16 - depthOf queueDepth)) = s at hst
    rcases List.eq_nil_or_concat s.consumers with hnil | ⟨front, c, hcons⟩
    · have hlen := hst.length
      rw [hnil] at hlen
      simp at hlen
      omega
    · rw [List.concat_eq_append] at hcons
      obtain ⟨hopen, hdepth, hq⟩ := hst.last c (by rw [hcons, List.getLast?_concat]; rfl)
      exact ⟨front, c, hcons, hopen, hdepth, by rw [hq]; rfl⟩

/-- The pool never runs dry just when the longest queue and a frame in the hands of each client
leave a slot free. -/
theorem neverStarves_iff (maxClients queueDepth : ℕ) :
    NeverStarves maxClients queueDepth ↔ Fits maxClients queueDepth := by
  refine ⟨fun h => ?_, neverStarves_of_fits⟩
  by_contra hfit
  obtain ⟨hc, hfull⟩ := not_or.mp hfit
  obtain ⟨ops, n, t, hnt, hfilled⟩ :=
    exists_filled queueDepth (Nat.pos_of_ne_zero hc) (not_lt.mp hfull)
  have hacq := (h (ops ++ [.acquire]) _ List.prefix_rfl).acquired
  rw [run_append, run_cons, run_nil, hfilled.exhausted hnt] at hacq
  exact absurd hacq Nat.one_ne_zero

end CapturePath

/-- A single client that stops popping, with the longest queue that can be set. -/
theorem not_neverStarves_stalled :
    ¬ ∀ maxClients ≤ 16, ∀ queueDepth, 1 ≤ queueDepth → queueDepth ≤ 32 →
      NeverStarves maxClients queueDepth := by
  intro h
  have hrun := h 1 (by decide) 32 (by decide) (by decide)
    (.subscribe :: CapturePath.frames 16 ++ [.acquire]) _ List.prefix_rfl
  exact absurd hrun.acquired (by decide)

end Machino.Stream
