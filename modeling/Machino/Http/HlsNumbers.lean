import Machino.Basic.Retained
import Machino.Basic.Runs
import Machino.Http.HlsSteps

namespace Machino.Hls

open Runs

theorem number_seg (pre : Text) (x : Seg) (ls : List Line) (media : UInt64) (disc : UInt32) :
    number media disc (x.lines pre ++ ls) =
      ⟨media, if x.disc then disc + 1 else disc, x.dur90k, pre ++ segName (.ofNat x.seq)⟩ ::
        number (media + 1) (if x.disc then disc + 1 else disc) ls := by
  unfold Seg.lines
  cases x.disc with
  | true => rfl
  | false => rfl

theorem number_segs (pre : Text) (segs : List Seg) (media : UInt64) (disc : UInt32) {i : ℕ}
    {a : Seg} (h : segs[i]? = some a) :
    (number media disc (segs.flatMap (Seg.lines pre)))[i]? =
      some ⟨media + .ofNat i, disc + .ofNat ((segs.take (i + 1)).countP (·.disc)), a.dur90k,
        pre ++ segName (.ofNat a.seq)⟩ := by
  induction segs generalizing media disc i with
  | nil => exact absurd h (by simp)
  | cons x segs ih =>
    have hdisc (n : ℕ) : disc + .ofNat (n + if x.disc = true then 1 else 0) =
        (if x.disc = true then disc + 1 else disc) + .ofNat n := by
      rw [UInt32.ofNat_add]
      split_ifs
      · rw [UInt32.add_comm (.ofNat n), ← UInt32.add_assoc]
        rfl
      · rw [UInt32.add_comm (.ofNat n), ← UInt32.add_assoc]
        exact congrArg (· + _) (UInt32.add_zero disc)
    rw [List.flatMap_cons, number_seg, List.take_succ_cons, List.countP_cons, hdisc]
    cases i with
    | zero =>
      obtain rfl := Option.some.inj h
      rw [List.take_zero, List.countP_nil]
      simp
    | succ i =>
      rw [List.getElem?_cons_succ] at h ⊢
      rw [ih _ _ h, UInt64.ofNat_add, UInt64.add_comm (.ofNat i), ← UInt64.add_assoc]
      rfl

theorem listed_playlist (s : Segmenter) (pre : Text) : listed (s.playlist pre) =
    number (.ofNat s.firstSeq) (.ofNat s.discSeq) (s.segs.flatMap (Seg.lines pre)) := by
  unfold listed Segmenter.playlist
  by_cases h : UInt32.ofNat s.discSeq = 0
  · rw [if_pos h, h]
    rfl
  · rw [if_neg h]
    rfl

/-- `history` is all segments that were closed, by their numbers. -/
structure Segmenter.Follows (history : List Seg) (s : Segmenter) : Prop where
  retained : Retained (·.disc) history s.segs s.discSeq
  next : s.nextSeq = history.length
  seq : ∀ (k : ℕ) (a : Seg), history[k]? = some a → a.seq = k

namespace Segmenter

variable {history : List Seg} {s : Segmenter}

theorem Follows.of_eq {t : Segmenter} (h : Follows history s) (hsegs : t.segs = s.segs)
    (hdisc : t.discSeq = s.discSeq) (hnext : t.nextSeq = s.nextSeq) : Follows history t :=
  ⟨hsegs ▸ hdisc ▸ h.retained, hnext.trans h.next, h.seq⟩

theorem retained_trimFrom (lim : Limits) (cur : ℕ) {segs : List Seg} {discSeq : ℕ}
    (h : Retained (·.disc) history segs discSeq) :
    Retained (·.disc) history (trimFrom lim cur segs discSeq).1
      (trimFrom lim cur segs discSeq).2 := by
  induction segs generalizing discSeq with
  | nil => exact h
  | cons x segs ih =>
    rw [trimFrom]
    split
    · exact ih h.drop
    · exact h

theorem Follows.trim (h : Follows history s) : Follows history s.trim :=
  ⟨retained_trimFrom s.lim s.cur.length h.retained, h.next, h.seq⟩

theorem Follows.push (h : Follows history s) (seg : Seg) (hseq : seg.seq = s.nextSeq) :
    Follows (history ++ [seg])
      { s with segs := s.segs ++ [seg], nextSeq := s.nextSeq + 1 } := by
  refine ⟨h.retained.push seg, ?_, ?_⟩
  · rw [List.length_append, ← h.next]
    rfl
  · intro k a ha
    rcases Runs.getElem?_concat_eq_some ha with hold | ⟨rfl, rfl⟩
    · exact h.seq k a hold
    · rw [hseq, h.next]

/-- A closed segment goes to the end of the history. -/
theorem Follows.closeCurrent (h : Follows history s) :
    ∃ more, Follows (history ++ more) s.closeCurrent := by
  unfold Segmenter.closeCurrent
  split_ifs
  · exact ⟨[], by rwa [List.append_nil]⟩
  · exact ⟨[], by rw [List.append_nil]; exact h.of_eq rfl rfl rfl⟩
  · refine ⟨[s.finished], Follows.trim ?_⟩
    exact (h.push s.finished rfl).of_eq rfl rfl rfl

theorem kept_follows (history : List Seg) :
    Kept fun s => ∃ more, Follows (history ++ more) s where
  abandon s h := h.imp fun _ h => h.of_eq rfl rfl rfl
  restart s h := h.imp fun _ h => ⟨h.retained.clear, h.next, h.seq⟩
  describe s _ _ _ _ h := h.imp fun _ h => h.of_eq rfl rfl rfl
  keySeen s h := h.imp fun _ h => h.of_eq rfl rfl rfl
  retime s _ h := h.imp fun _ h => h.of_eq rfl rfl rfl
  closeCurrent s h := by
    obtain ⟨more, h⟩ := h
    obtain ⟨next, hnext⟩ := h.closeCurrent
    exact ⟨more ++ next, by rwa [← List.append_assoc]⟩
  openAt s dts _ _ h := by
    unfold openAt
    split_ifs
    · exact h
    · exact h.imp fun _ h => h.of_eq rfl rfl rfl
  grow s frag fin h := by
    obtain ⟨more, h⟩ := h
    have hgrown : Follows (history ++ more) (Segmenter.trim { s with
        fragSeq := s.fragSeq + 1, cur := s.cur ++ frag, curEnd := fin }) :=
      Follows.trim (h.of_eq rfl rfl rfl)
    refine ⟨more, ?_⟩
    unfold Segmenter.grow
    dsimp only
    split_ifs
    · exact hgrown.of_eq rfl rfl rfl
    · exact hgrown

/-- What a run adds to the history comes behind what is there. -/
theorem Follows.run (h : Follows history s) (fs : List Feed) :
    ∃ more, Follows (history ++ more) (run Segmenter.feed s fs) :=
  run_invariant (P := fun s => ∃ more, Follows (history ++ more) s)
    (fun _ f hs => (kept_follows history).feed hs f) ⟨[], by rwa [List.append_nil]⟩ fs

theorem Follows.init (lim : Limits) : Follows [] { lim } :=
  ⟨.nil, rfl, fun k a h => absurd h (by simp)⟩

theorem Follows.firstSeq_eq (h : Follows history s) :
    s.firstSeq = history.length - s.segs.length := by
  have hwindow := h.retained.getElem?_window 0
  unfold Segmenter.firstSeq
  cases hsegs : s.segs with
  | nil => exact h.next
  | cons x segs =>
    rw [hsegs] at hwindow
    exact h.seq _ x hwindow.symm

/-- The place of a segment in the history is its number. -/
theorem Follows.getElem?_seq (h : Follows history s) {i : ℕ} {a : Seg}
    (ha : s.segs[i]? = some a) : a.seq = s.firstSeq + i ∧ history[a.seq]? = some a := by
  rw [h.retained.getElem?_window i, ← h.firstSeq_eq] at ha
  have hseq := h.seq _ a ha
  exact ⟨hseq, by rwa [← hseq] at ha⟩

/-- The numbers that a player gives to a segment are a matter of the history. -/
theorem Follows.listed_getElem? (h : Follows history s) (pre : Text) {i : ℕ} {a : Seg}
    (ha : s.segs[i]? = some a) : (listed (s.playlist pre))[i]? =
      some ⟨.ofNat a.seq, .ofNat ((history.take (a.seq + 1)).countP (·.disc)), a.dur90k,
        pre ++ segName (.ofNat a.seq)⟩ := by
  obtain ⟨hseq, -⟩ := h.getElem?_seq ha
  have hmedia : UInt64.ofNat a.seq = .ofNat s.firstSeq + .ofNat i := by
    rw [hseq, UInt64.ofNat_add]
  have hcount := h.retained.countP_take (i + 1)
  rw [← h.firstSeq_eq, ← Nat.add_assoc, ← hseq] at hcount
  rw [listed_playlist, number_segs pre s.segs _ _ ha, ← hcount, UInt32.ofNat_add, ← hmedia]

end Segmenter

theorem length_number_segs (pre : Text) (segs : List Seg) (media : UInt64) (disc : UInt32) :
    (number media disc (segs.flatMap (Seg.lines pre))).length = segs.length := by
  induction segs generalizing media disc with
  | nil => rfl
  | cons x segs ih =>
    rw [List.flatMap_cons, number_seg, List.length_cons, ih, List.length_cons]

/-- The segments of the window are listed under consecutive numbers, each under its own. -/
def Consecutive (s : Segmenter) (pre : Text) : Prop :=
  (listed (s.playlist pre)).length = s.segs.length ∧
    ∀ (i : ℕ) (e : Listed), (listed (s.playlist pre))[i]? = some e →
      e.media = .ofNat (s.firstSeq + i) ∧ e.uri = pre ++ segName e.media

/-- A segment that is in both playlists has the same numbers in both. -/
def SameNumbers (s t : Segmenter) (pre pre' : Text) : Prop :=
  ∀ (i j : ℕ) (a b : Seg), s.segs[i]? = some a → t.segs[j]? = some b → a.seq = b.seq →
    ∃ e e', (listed (s.playlist pre))[i]? = some e ∧ (listed (t.playlist pre'))[j]? = some e' ∧
      e.media = e'.media ∧ e.disc = e'.disc

theorem numbers_kept (lim : Limits) (js ks : List Feed) (pre pre' : Text) :
    Consecutive (run Segmenter.feed { lim } js) pre ∧
      SameNumbers (run Segmenter.feed { lim } js) (run Segmenter.feed { lim } (js ++ ks)) pre
        pre' := by
  obtain ⟨history, hs⟩ := (Segmenter.Follows.init lim).run js
  obtain ⟨more, ht⟩ := hs.run ks
  rw [← run_append] at ht
  rw [List.nil_append] at hs ht
  constructor
  · have hlen : (listed ((run Segmenter.feed { lim } js).playlist pre)).length =
        (run Segmenter.feed { lim } js).segs.length := by
      rw [listed_playlist, length_number_segs]
    refine ⟨hlen, fun i e he => ?_⟩
    have hi : i < (run Segmenter.feed { lim } js).segs.length :=
      hlen ▸ (List.getElem?_eq_some_iff.mp he).1
    have hget := List.getElem?_eq_getElem hi
    obtain ⟨hseq, -⟩ := hs.getElem?_seq hget
    obtain rfl := Option.some.inj ((hs.listed_getElem? pre hget).symm.trans he)
    exact ⟨congrArg UInt64.ofNat hseq, rfl⟩
  · intro i j a b ha hb hab
    have hle : a.seq < history.length := (List.getElem?_eq_some_iff.mp (hs.getElem?_seq ha).2).1
    refine ⟨_, _, hs.listed_getElem? pre ha, ht.listed_getElem? pre' hb,
      congrArg UInt64.ofNat hab, ?_⟩
    dsimp only
    rw [← hab, List.take_append_of_le_length hle]

end Machino.Hls
