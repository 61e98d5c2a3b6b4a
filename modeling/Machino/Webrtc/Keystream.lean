import Mathlib.Data.Finset.Card
import Machino.Webrtc.SrtpRoundTrip

namespace Machino.Webrtc

open Bytes SrtpSession

section

variable {σ : Type} [Inhabited σ] {S : Finset ℕ} {t : Table σ} {f : ℕ → Option σ} {ssrc : ℕ}

/-- The table keeps the streams that `f` knows, all of them in `S`. -/
structure Keeps (S : Finset ℕ) (t : Table σ) (f : ℕ → Option σ) : Prop where
  seen : ∀ i, (t i).seen = true → (t i).ssrc ∈ S ∧ f (t i).ssrc = some (t i).st
  known : ∀ ssrc, (f ssrc).isSome → ∃ i, (t i).seen = true ∧ (t i).ssrc = ssrc
  distinct : ∀ i j, (t i).seen = true → (t j).seen = true → (t i).ssrc = (t j).ssrc → i = j
  unused : ∀ i, (t i).seen = false → (t i).st = default

theorem Keeps.room (h : Keeps S t f) (hS : S.card ≤ kStreams) (hmem : ssrc ∈ S) :
    ¬ ∀ i, (t i).seen = true ∧ (t i).ssrc ≠ ssrc := by
  intro hall
  have hle : (Finset.univ : Finset (Fin kStreams)).card ≤ (S.erase ssrc).card := by
    apply Finset.card_le_card_of_injOn fun i => (t i).ssrc
    · intro i _
      exact Finset.mem_erase.mpr ⟨(hall i).2, (h.seen i (hall i).1).1⟩
    · intro i _ j _ hij
      exact h.distinct i j (hall i).1 (hall j).1 hij
  have hlt := Finset.card_erase_lt_of_mem hmem
  rw [Finset.card_univ, Fintype.card_fin] at hle
  omega

/-- The slot of a stream holds what is known of it. -/
theorem Keeps.entry (h : Keeps S t f) (hS : S.card ≤ kStreams) (hmem : ssrc ∈ S) :
    (slot t ssrc).2 (slot t ssrc).1 = ⟨ssrc, (f ssrc).isSome, (f ssrc).getD default⟩ := by
  obtain ⟨i, hseen, hssrc, hslot⟩ | ⟨hother, i, hseen, hslot⟩ | ⟨hall, -⟩ := slot_cases t ssrc
  · have hf := (h.seen i hseen).2
    rw [hssrc] at hf
    rw [hslot, hf]
    show t i = ⟨ssrc, true, (t i).st⟩
    rw [← hssrc, ← hseen]
  · have hnone : f ssrc = none := by
      by_contra hsome
      obtain ⟨j, hj, hjs⟩ := h.known ssrc (Option.isSome_iff_ne_none.mpr hsome)
      exact hother j hj hjs
    rw [hslot, hnone]
    show Function.update t i { t i with ssrc := ssrc } i = ⟨ssrc, false, default⟩
    rw [Function.update_self, ← h.unused i hseen, ← hseen]
  · exact absurd hall (h.room hS hmem)

/-- What is written into the slot of a stream becomes known of it. -/
theorem Keeps.update (h : Keeps S t f) (hS : S.card ≤ kStreams) (hmem : ssrc ∈ S) (x : σ) :
    Keeps S (Function.update (slot t ssrc).2 (slot t ssrc).1 ⟨ssrc, true, x⟩)
      (Function.update f ssrc (some x)) := by
  -- the slot is the stream's own or a free one, and the others stay as they are
  have hslot : ((t (slot t ssrc).1).seen = true → (t (slot t ssrc).1).ssrc = ssrc) ∧
      (∀ j, j ≠ (slot t ssrc).1 → (slot t ssrc).2 j = t j ∧
        ((t j).seen = true → (t j).ssrc ≠ ssrc)) := by
    obtain ⟨i, hseen, hssrc, hslot⟩ | ⟨hother, i, hseen, hslot⟩ | ⟨hall, -⟩ := slot_cases t ssrc
    · rw [hslot]
      refine ⟨fun _ => hssrc, fun j hj => ⟨rfl, fun hjs heq => hj ?_⟩⟩
      exact h.distinct j i hjs hseen (heq.trans hssrc.symm)
    · rw [hslot]
      refine ⟨fun hs => ?_, fun j hj => ⟨Function.update_of_ne hj _ _, hother j⟩⟩
      rw [hseen] at hs
      exact absurd hs Bool.false_ne_true
    · exact absurd hall (h.room hS hmem)
  generalize hi : (slot t ssrc).1 = i at hslot
  generalize ht : (slot t ssrc).2 = t' at hslot
  obtain ⟨hown, hothers⟩ := hslot
  have hat (j : Fin kStreams) : Function.update t' i ⟨ssrc, true, x⟩ j =
      if j = i then ⟨ssrc, true, x⟩ else t j := by
    rw [Function.update_apply]
    split_ifs with hj
    · rfl
    · exact (hothers j hj).1
  constructor
  · intro j hj
    rw [hat] at hj ⊢
    split_ifs at hj ⊢ with heq
    · exact ⟨hmem, Function.update_self _ _ _⟩
    · rw [Function.update_of_ne ((hothers j heq).2 hj)]
      exact h.seen j hj
  · intro m hm
    by_cases heq : m = ssrc
    · refine ⟨i, ?_⟩
      rw [hat, if_pos rfl]
      exact ⟨rfl, heq.symm⟩
    · rw [Function.update_of_ne heq] at hm
      obtain ⟨j, hj, hjs⟩ := h.known m hm
      have hji : j ≠ i := by
        rintro rfl
        exact heq (hjs.symm.trans (hown hj))
      refine ⟨j, ?_⟩
      rw [hat, if_neg hji]
      exact ⟨hj, hjs⟩
  · intro j k hj hk hjk
    rw [hat] at hj hk
    rw [hat, hat] at hjk
    split_ifs at hj hk hjk with h1 h2 h2
    · exact h1.trans h2.symm
    · exact absurd hjk.symm ((hothers k h2).2 hk)
    · exact absurd hjk ((hothers j h1).2 hj)
    · exact h.distinct j k hj hk hjk
  · intro j hj
    rw [hat] at hj ⊢
    split_ifs at hj ⊢
    exact h.unused j hj

theorem keeps_none (S : Finset ℕ) : Keeps S (fun _ => { st := default } : Table σ) fun _ => none where
  seen _ h := absurd h Bool.false_ne_true
  known _ h := absurd h Bool.false_ne_true
  distinct _ _ h := absurd h Bool.false_ne_true
  unused _ _ := rfl

end

/-- The index of a packet comes behind those of its stream so far, and close enough for a wrap of
the sequence number to be seen. -/
def Follows (n : ℕ) : Option OutSeq → Prop
  | none => n < 2 ^ 16
  | some x => x.last < 2 ^ 16 ∧ x.roc * 2 ^ 16 + x.last < n ∧ n < x.roc * 2 ^ 16 + x.last + 2 ^ 15

/-- What is kept of a stream at an index. -/
def outAt (n : ℕ) : OutSeq := ⟨n / 2 ^ 16, n % 2 ^ 16⟩

theorem outAt_index (n : ℕ) : (outAt n).roc * 2 ^ 16 + (outAt n).last = n := Nat.div_add_mod' n _

theorem protectRtp_follows {c : Crypto} {s : SrtpSession} {S : Finset ℕ} {f : ℕ → Option OutSeq}
    {ssrc n : ℕ} {pkt : Bytes} (h : Keeps S s.streamsOut f) (hS : S.card ≤ kStreams)
    (hmem : ssrc ∈ S) (hpkt : Plain ssrc (n % 2 ^ 16) pkt) (hf : Follows n (f ssrc))
    (hn : n < 2 ^ 48) :
    ∃ t, protectRtp c s pkt = ({ s with streamsOut := t }, some (sealRtp c s.rtpOut n pkt)) ∧
      Keeps S t (Function.update f ssrc (some (outAt n))) := by
  have hentry := h.entry hS hmem
  have hroc : (if (f ssrc).isSome = true ∧ n % 2 ^ 16 < ((f ssrc).getD default).last ∧
      0x8000 < (((f ssrc).getD default).last - n % 2 ^ 16) % 2 ^ 16 then
      (((f ssrc).getD default).roc + 1) % 2 ^ 32 else ((f ssrc).getD default).roc) =
        n / 2 ^ 16 := by
    cases hcur : f ssrc with
    | none =>
      rw [hcur] at hf
      rw [if_neg (by simp)]
      exact (Nat.div_eq_of_lt hf).symm
    | some x =>
      rw [hcur] at hf
      obtain ⟨hlast, hlow, hhigh⟩ := hf
      simp only [Option.isSome_some, Option.getD_some, true_and]
      split_ifs with hwrap
      · omega
      · omega
  refine ⟨_, ?_, h.update hS hmem (outAt n)⟩
  unfold protectRtp
  rw [if_neg (Nat.not_lt.mpr hpkt.long), hpkt.ssrc, hpkt.seq]
  dsimp only
  rw [hentry]
  dsimp only
  rw [hroc, Nat.div_add_mod', sealRtp, hpkt.ssrc]
  rfl

/-- The blocks of two streams are not the same. -/
theorem ssrc_of_ctrBlock {salt : Vector UInt8 14} {a b i j n m : ℕ} (ha : a < 2 ^ 32)
    (hb : b < 2 ^ 32) (h : ctrBlock (makeIv salt a i) n = ctrBlock (makeIv salt b j) m) : a = b := by
  have hbyte : ∀ k (hk : k < 4), a / 2 ^ (8 * (3 - k)) % 2 ^ 8 = b / 2 ^ (8 * (3 - k)) % 2 ^ 8 := by
    intro k hk
    have hxor : (ctrBlock (makeIv salt a i) n)[4 + k] = (ctrBlock (makeIv salt b j) m)[4 + k] := by
      rw [h]
    simp only [ctrBlock, makeIv] at hxor
    rw [Vector.getElem_set_ne _ _ (by omega), Vector.getElem_set_ne _ _ (by omega),
      Vector.getElem_set_ne _ _ (by omega), Vector.getElem_set_ne _ _ (by omega),
      Vector.getElem_ofFn, Vector.getElem_ofFn] at hxor
    dsimp only at hxor
    rw [if_pos (by omega), if_pos (by omega)] at hxor
    have hoff : 7 - (4 + k) = 3 - k := by omega
    rw [hoff] at hxor
    exact ofNat_inj ((UInt8.xor_right_inj _).mp hxor)
  have h0 := hbyte 0 (by decide)
  have h1 := hbyte 1 (by decide)
  have h2 := hbyte 2 (by decide)
  have h3 := hbyte 3 (by decide)
  simp only [Nat.reduceSub, Nat.reduceMul, Nat.reducePow, Nat.div_one] at h0 h1 h2 h3
  omega

/-- What was protected, the newest first: the index and the packet. -/
abbrev Seals := List (ℕ × Bytes)

def Seals.keystream (d : Dir) (l : Seals) : List Block :=
  l.flatMap fun x => counterBlocks d (be32 x.2 8) x.1 x.2

theorem be32_lt (p : Bytes) (i : ℕ) : be32 p i < 2 ^ 32 := by
  have hbyte (j : ℕ) : byte p j < 2 ^ 8 := UInt8.toNat_lt _
  have h0 := hbyte i
  have h1 := hbyte (i + 1)
  have h2 := hbyte (i + 2)
  have h3 := hbyte (i + 2 + 1)
  unfold be32 be16
  omega

/-- Where every packet has an index of its own in its stream, no block of the keystream is used
twice. -/
theorem keystream_nodup {d : Dir} {l : Seals} (hlen : ∀ x ∈ l, x.2.length < 2 ^ 20)
    (hindex : ∀ x ∈ l, x.1 < 2 ^ 48) (h : (l.map fun x => (be32 x.2 8, x.1)).Nodup) :
    (l.keystream d).Nodup := by
  have hblocks : ∀ x ∈ l, ∀ n < (x.2.length - 12 + 15) / 16, n < 2 ^ 16 := by
    intro x hx n hn
    have hx := hlen x hx
    omega
  unfold Seals.keystream
  rw [List.nodup_flatMap]
  constructor
  · intro x hx
    unfold counterBlocks
    apply List.Nodup.map_on _ List.nodup_range
    intro n hn m hm heq
    have hn' := hblocks x hx n (List.mem_range.mp hn)
    have hm' := hblocks x hx m (List.mem_range.mp hm)
    have hinj := (ctrBlock_inj (hindex x hx) (hindex x hx) (Nat.mod_lt _ (by decide))
      (Nat.mod_lt _ (by decide)) heq).2
    rwa [Nat.mod_eq_of_lt hn', Nat.mod_eq_of_lt hm'] at hinj
  · rw [List.Nodup, List.pairwise_map] at h
    refine h.imp_of_mem fun {x y} hx hy hne => List.disjoint_left.mpr ?_
    intro block hbx hby
    obtain ⟨n, -, rfl⟩ := List.mem_map.mp hbx
    obtain ⟨m, -, heq⟩ := List.mem_map.mp hby
    have hssrc := ssrc_of_ctrBlock (be32_lt _ _) (be32_lt _ _) heq
    rw [hssrc] at heq
    have hsame := (ctrBlock_inj (hindex y hy) (hindex x hx) (Nat.mod_lt _ (by decide))
      (Nat.mod_lt _ (by decide)) heq).1
    exact hne (Prod.ext hssrc.symm hsame.symm)

/-- Every packet protected so far has an index of its own, up to where its stream is now. -/
structure Tally (S : Finset ℕ) (s : SrtpSession) (f : ℕ → Option OutSeq) (l : Seals) : Prop where
  keeps : Keeps S s.streamsOut f
  size : ∀ x ∈ l, x.2.length < 2 ^ 20
  below : ∀ x ∈ l, ∃ st, f (be32 x.2 8) = some st ∧ x.1 ≤ st.roc * 2 ^ 16 + st.last
  once : (l.map fun x => (be32 x.2 8, x.1)).Nodup

section

variable {c : Crypto} {s : SrtpSession} {S : Finset ℕ} {f : ℕ → Option OutSeq} {l : Seals}

/-- One packet more. -/
theorem Tally.protect (h : Tally S s f l) (hS : S.card ≤ kStreams) {ssrc n : ℕ} {pkt : Bytes}
    (hmem : ssrc ∈ S) (hpkt : Plain ssrc (n % 2 ^ 16) pkt) (hsize : pkt.length < 2 ^ 20)
    (hf : Follows n (f ssrc)) (hn : n < 2 ^ 48) :
    ∃ t, protectRtp c s pkt = ({ s with streamsOut := t }, some (sealRtp c s.rtpOut n pkt)) ∧
      Tally S { s with streamsOut := t } (Function.update f ssrc (some (outAt n)))
        ((n, pkt) :: l) := by
  obtain ⟨t, hstep, hkeeps⟩ := protectRtp_follows (c := c) h.keeps hS hmem hpkt hf hn
  -- what the stream has so far lies in front of the new index
  have hlt : ∀ x ∈ l, be32 x.2 8 = ssrc → x.1 < n := by
    intro x hx hxs
    obtain ⟨st, hst, hle⟩ := h.below x hx
    rw [hxs] at hst
    rw [hst] at hf
    exact hle.trans_lt hf.2.1
  refine ⟨t, hstep, hkeeps, List.forall_mem_cons.mpr ⟨hsize, h.size⟩, ?_, ?_⟩
  · rw [List.forall_mem_cons]
    constructor
    · refine ⟨outAt n, ?_, (outAt_index n).ge⟩
      rw [hpkt.ssrc, Function.update_self]
    · intro x hx
      by_cases hxs : be32 x.2 8 = ssrc
      · refine ⟨outAt n, ?_, ?_⟩
        · rw [hxs, Function.update_self]
        · rw [outAt_index]
          exact (hlt x hx hxs).le
      · rw [Function.update_of_ne hxs]
        exact h.below x hx
  · rw [List.map_cons, List.nodup_cons]
    refine ⟨fun hmem => ?_, h.once⟩
    obtain ⟨x, hx, heq⟩ := List.mem_map.mp hmem
    obtain ⟨hxs, hxn⟩ := Prod.mk.inj heq
    exact absurd hxn (hlt x hx (hxs.trans hpkt.ssrc)).ne

/-- No block of the keystream is used twice while the indices last. -/
theorem Tally.keystream (h : Tally S s f l) (hf : ∀ ssrc ∈ S, ∀ st, f ssrc = some st →
    st.roc * 2 ^ 16 + st.last < 2 ^ 48) (d : Dir) : (l.keystream d).Nodup := by
  apply keystream_nodup h.size _ h.once
  intro x hx
  obtain ⟨st, hst, hle⟩ := h.below x hx
  obtain ⟨i, hi, his⟩ := h.keeps.known _ (Option.isSome_of_eq_some hst)
  exact hle.trans_lt (hf _ (his ▸ (h.keeps.seen i hi).1) st hst)

end

end Machino.Webrtc
