import Machino.Net.TxnRecord

namespace Machino.Net

/-- What a decimal length denotes, however long it is. -/
def denoted (len : Text) : ℕ := Nat.ofDigitChars 10 len 0

/-- What is read of a decimal length. -/
def readLength (len : Text) : ℕ := min (denoted len) (ulongSize - 1)

/-- Behind `head` stands a length as a line of its own, and then as many characters: the blob. -/
def BlobIn (head text b : Text) : Prop :=
  ∃ len rest, text = head ++ (len ++ '\n' :: (b ++ rest)) ∧ '\n' ∉ len ∧ b.length = denoted len

/-- Whatever is decoded of a text stands in it with its length. -/
structure HonestRecord (text : Text) : Prop where
  confirmed : ∀ cfg, decodeConfirmed text = some cfg → BlobIn (kConfirmedTag ++ ['\n']) text cfg
  pending : ∀ r, decodePending text = some r →
    ∃ tok, '\n' ∉ tok ∧ BlobIn (kPendingTag ++ '\n' :: (tok ++ ['\n'])) text r.candidate

/-- The decimal length at `pos` can be added to where its blob begins. -/
def LengthFits (s : Text) (pos : ℕ) : Prop :=
  ∀ len next, takeLine s pos = some (len, next) → len ≠ [] → len.all Char.isDigit = true →
    next + denoted len < ulongSize

structure RecordFits (text : Text) : Prop where
  confirmed : ∀ pos, takeLine text 0 = some (kConfirmedTag, pos) → LengthFits text pos
  pending : ∀ pos, takeLine text 0 = some (kPendingTag, pos) → ∀ tok next,
    takeLine text pos = some (tok, next) → tok ≠ [] → tok.all Char.isDigit = true →
      LengthFits text next

theorem takeLine_eq_some {s line : Text} {pos next : ℕ} (h : takeLine s pos = some (line, next)) :
    s.drop pos = line ++ '\n' :: s.drop next ∧ '\n' ∉ line ∧ next = pos + line.length + 1 := by
  unfold takeLine at h
  split at h
  · cases h
  · rename_i n hn
    obtain ⟨hlt, hbreak, hbefore⟩ := List.findIdx?_eq_some_iff_getElem.mp hn
    obtain ⟨rfl, rfl⟩ := Prod.mk.inj (Option.some.inj h)
    have hline : ((s.drop pos).take n).length = n := by
      rw [List.length_take]
      omega
    have hsplit : s.drop pos = (s.drop pos).take n ++ '\n' :: s.drop (pos + n + 1) := by
      rw [Nat.add_assoc, ← List.drop_drop, ← of_decide_eq_true hbreak,
        List.getElem_cons_drop hlt, List.take_append_drop]
    refine ⟨hsplit, fun hmem => ?_, by rw [hline]⟩
    obtain ⟨i, hi, hget⟩ := List.getElem_of_mem hmem
    rw [List.getElem_take] at hget
    exact hbefore i (by omega) (decide_eq_true hget)

theorem takeLine_next_le {s line : Text} {pos next : ℕ}
    (h : takeLine s pos = some (line, next)) : 0 < next ∧ next ≤ s.length := by
  obtain ⟨hdrop, -, rfl⟩ := takeLine_eq_some h
  have hlen := congrArg List.length hdrop
  rw [List.length_drop, List.length_append, List.length_cons] at hlen
  exact ⟨by omega, by omega⟩

theorem takeBlob_of_decimal {s len : Text} {pos next : ℕ}
    (h : takeLine s pos = some (len, next)) (hne : len ≠ [])
    (hall : len.all Char.isDigit = true) :
    takeBlob s pos =
      if s.length < (next + readLength len) % ulongSize then none
      else some ((s.drop next).take (readLength len), (next + readLength len) % ulongSize) := by
  have hread : (Text.strtoul len).toNat = readLength len := Text.strtoul_of_digits hall
  unfold takeBlob
  rw [h]
  dsimp only
  rw [if_neg hne, hall, hread]
  rfl

theorem decimal_of_takeBlob {s b : Text} {pos e : ℕ} (h : takeBlob s pos = some (b, e)) :
    ∃ len next, takeLine s pos = some (len, next) ∧ len ≠ [] ∧ len.all Char.isDigit = true := by
  unfold takeBlob at h
  split at h
  · cases h
  · rename_i len next hline
    split at h
    · cases h
    · rename_i hne
      split at h
      · cases h
      · rename_i hall
        exact ⟨len, next, hline, hne, by simpa using hall⟩

/-- A length that fits is taken at its word. -/
theorem takeBlob_of_fits {s len b : Text} {pos next e : ℕ}
    (h : takeLine s pos = some (len, next)) (hne : len ≠ [])
    (hall : len.all Char.isDigit = true) (hfits : next + denoted len < ulongSize)
    (hb : takeBlob s pos = some (b, e)) :
    b.length = denoted len ∧ b = (s.drop next).take b.length := by
  have hlen : readLength len = denoted len := by
    unfold readLength
    omega
  rw [takeBlob_of_decimal h hne hall, hlen, Nat.mod_eq_of_lt hfits] at hb
  split at hb
  · cases hb
  · rename_i hroom
    obtain ⟨rfl, -⟩ := Prod.mk.inj (Option.some.inj hb)
    have hsize : ((s.drop next).take (denoted len)).length = denoted len := by
      rw [List.length_take, List.length_drop]
      omega
    exact ⟨hsize, by rw [hsize]⟩

/-- A length that does not fit wraps around, and all that is left is taken. -/
theorem takeBlob_of_wrap {s len : Text} {pos next : ℕ} (hs : s.length < ulongSize)
    (h : takeLine s pos = some (len, next)) (hne : len ≠ [])
    (hall : len.all Char.isDigit = true) (hwrap : ulongSize ≤ next + denoted len) :
    ∃ b e, takeBlob s pos = some (b, e) ∧ b.length < denoted len := by
  obtain ⟨hpos, hle⟩ := takeLine_next_le h
  have hlow : ulongSize ≤ next + readLength len := by
    unfold readLength
    omega
  have hhigh : readLength len < ulongSize := by
    unfold readLength
    have : 0 < ulongSize := by decide
    omega
  have hmod : (next + readLength len) % ulongSize = next + readLength len - ulongSize := by
    rw [Nat.mod_eq_sub_mod hlow, Nat.mod_eq_of_lt (by omega)]
  refine ⟨(s.drop next).take (readLength len), (next + readLength len) % ulongSize, ?_, ?_⟩
  · rw [takeBlob_of_decimal h hne hall, if_neg]
    omega
  · rw [List.length_take, List.length_drop]
    omega

theorem blobIn_of_takeLine {head text rest len b : Text} {next : ℕ} (ht : text = head ++ rest)
    (h : takeLine text head.length = some (len, next)) :
    BlobIn head text b ↔ b.length = denoted len ∧ b = (text.drop next).take b.length := by
  obtain ⟨hdrop, hfree, -⟩ := takeLine_eq_some h
  constructor
  · rintro ⟨len', rest', htext, hfree', hlen⟩
    have hline := takeLine_append head (b ++ rest') hfree'
    rw [← htext, h] at hline
    obtain ⟨rfl, rfl⟩ := Prod.mk.inj (Option.some.inj hline)
    refine ⟨hlen, ?_⟩
    have hcut : text.drop (head.length + len.length + 1) = b ++ rest' := by
      rw [htext]
      have hassoc : head ++ (len ++ '\n' :: (b ++ rest')) =
          (head ++ len ++ ['\n']) ++ (b ++ rest') := by simp
      rw [hassoc, List.drop_left' (by simp; omega)]
    rw [hcut, List.take_left]
  · rintro ⟨hlen, hb⟩
    refine ⟨len, (text.drop next).drop b.length, ?_, hfree, hlen⟩
    have hrest : b ++ (text.drop next).drop b.length = text.drop next := by
      calc b ++ (text.drop next).drop b.length
          = (text.drop next).take b.length ++ (text.drop next).drop b.length := by rw [← hb]
        _ = text.drop next := List.take_append_drop _ _
    rw [hrest, ← hdrop, ht, List.drop_left]

/-- What is taken behind `head` stands there with its length just when the length fits. -/
theorem forall_blobIn_iff {head text rest : Text} (hs : text.length < ulongSize)
    (ht : text = head ++ rest) :
    (∀ b e, takeBlob text head.length = some (b, e) → BlobIn head text b) ↔
      LengthFits text head.length := by
  constructor
  · intro h len next hline hne hall
    by_contra hwrap
    -- the sum wraps to a place before the end of the text, so that a shorter blob is taken
    obtain ⟨b, e, hb, hshort⟩ := takeBlob_of_wrap hs hline hne hall (by omega)
    have hlen := ((blobIn_of_takeLine ht hline).mp (h b e hb)).1
    omega
  · intro h b e hb
    obtain ⟨len, next, hline, hne, hall⟩ := decimal_of_takeBlob hb
    exact (blobIn_of_takeLine ht hline).mpr
      (takeBlob_of_fits hline hne hall (h len next hline hne hall) hb)

/-- A line at the start of a text, with what stands before the next one. -/
theorem eq_append_of_takeLine {text line : Text} {pos : ℕ}
    (h : takeLine text 0 = some (line, pos)) :
    text = (line ++ ['\n']) ++ text.drop pos ∧ pos = (line ++ ['\n']).length := by
  obtain ⟨hdrop, -, hpos⟩ := takeLine_eq_some h
  rw [List.drop_zero] at hdrop
  refine ⟨by simpa using hdrop, ?_⟩
  rw [List.length_append, List.length_singleton]
  omega

theorem decodeConfirmed_eq_some {text cfg : Text} : decodeConfirmed text = some cfg ↔
    ∃ pos e, takeLine text 0 = some (kConfirmedTag, pos) ∧ takeBlob text pos = some (cfg, e) := by
  unfold decodeConfirmed
  constructor
  · intro h
    split at h
    · cases h
    · rename_i tag pos hline
      split at h
      · cases h
      · rename_i htag
        obtain ⟨⟨b, e⟩, hb, rfl⟩ := Option.map_eq_some_iff.mp h
        exact ⟨pos, e, by rw [hline, not_not.mp htag], hb⟩
  · rintro ⟨pos, e, hline, hb⟩
    rw [hline]
    dsimp only
    rw [if_neg (by simp), hb]
    rfl

theorem decodePending_eq_some {text : Text} {r : PendingRecord} :
    decodePending text = some r ↔ ∃ pos tok next e, takeLine text 0 = some (kPendingTag, pos) ∧
      takeLine text pos = some (tok, next) ∧ tok ≠ [] ∧ tok.all Char.isDigit = true ∧
        takeBlob text next = some (r.candidate, e) ∧ r.token = Text.strtoull tok := by
  unfold decodePending
  constructor
  · intro h
    split at h
    · cases h
    · rename_i tag pos hline
      split at h
      · cases h
      · rename_i htag
        split at h
        · cases h
        · rename_i tok next htok
          split at h
          · cases h
          · rename_i hne
            split at h
            · cases h
            · rename_i hall
              obtain ⟨⟨b, e⟩, hb, rfl⟩ := Option.map_eq_some_iff.mp h
              exact ⟨pos, tok, next, e, by rw [hline, not_not.mp htag], htok, hne,
                by simpa using hall, hb, rfl⟩
  · rintro ⟨pos, tok, next, e, hline, htok, hne, hall, hb, htoken⟩
    rw [hline]
    dsimp only
    rw [if_neg (by simp), htok]
    dsimp only
    rw [if_neg hne, hall, hb]
    cases r
    cases htoken
    rfl

theorem confirmed_blobIn_iff {text : Text} (hs : text.length < ulongSize) {pos : ℕ}
    (hline : takeLine text 0 = some (kConfirmedTag, pos)) :
    (∀ b e, takeBlob text pos = some (b, e) → BlobIn (kConfirmedTag ++ ['\n']) text b) ↔
      LengthFits text pos := by
  obtain ⟨ht, rfl⟩ := eq_append_of_takeLine hline
  exact forall_blobIn_iff hs ht

/-- The blob of a pending record stands behind its token. -/
theorem pending_blobIn_iff {text tok : Text} (hs : text.length < ulongSize) {pos next : ℕ}
    (hline : takeLine text 0 = some (kPendingTag, pos))
    (htok : takeLine text pos = some (tok, next)) :
    (∀ b e, takeBlob text next = some (b, e) →
      BlobIn (kPendingTag ++ '\n' :: (tok ++ ['\n'])) text b) ↔ LengthFits text next := by
  obtain ⟨ht, rfl⟩ := eq_append_of_takeLine hline
  obtain ⟨hdrop, -, rfl⟩ := takeLine_eq_some htok
  have hlen : (kPendingTag ++ ['\n']).length + tok.length + 1 =
      (kPendingTag ++ '\n' :: (tok ++ ['\n'])).length := by
    simp
    omega
  rw [hlen] at hdrop ⊢
  have hhead : text = (kPendingTag ++ '\n' :: (tok ++ ['\n'])) ++
      text.drop (kPendingTag ++ '\n' :: (tok ++ ['\n'])).length := by
    rw [hdrop] at ht
    simpa using ht
  exact forall_blobIn_iff hs hhead

/-- The token of a blob's record is the one that is read. -/
theorem BlobIn.token_eq {text tok tok' b : Text} {pos next : ℕ}
    (h : BlobIn (kPendingTag ++ '\n' :: (tok' ++ ['\n'])) text b) (hfree : '\n' ∉ tok')
    (hline : takeLine text 0 = some (kPendingTag, pos))
    (htok : takeLine text pos = some (tok, next)) : tok' = tok := by
  obtain ⟨len, rest, htext, -⟩ := h
  have hassoc : text = (kPendingTag ++ ['\n']) ++
      (tok' ++ '\n' :: (len ++ '\n' :: (b ++ rest))) := by simpa using htext
  have hread := takeLine_append (kPendingTag ++ ['\n']) (len ++ '\n' :: (b ++ rest)) hfree
  rw [← hassoc, ← (eq_append_of_takeLine hline).2, htok] at hread
  exact (Prod.mk.inj (Option.some.inj hread)).1.symm

/-- What is decoded has the lengths that are written just when none of them wraps around. -/
theorem honestRecord_iff {text : Text} (hs : text.length < ulongSize) :
    HonestRecord text ↔ RecordFits text := by
  constructor
  · intro h
    refine ⟨fun pos hline => (confirmed_blobIn_iff hs hline).mp fun b e hb => ?_,
      fun pos hline tok next htok hne hall => (pending_blobIn_iff hs hline htok).mp
        fun b e hb => ?_⟩
    · exact h.confirmed b (decodeConfirmed_eq_some.mpr ⟨pos, e, hline, hb⟩)
    · obtain ⟨tok', hfree', hin⟩ := h.pending ⟨Text.strtoull tok, b⟩
        (decodePending_eq_some.mpr ⟨pos, tok, next, e, hline, htok, hne, hall, hb, rfl⟩)
      rwa [hin.token_eq hfree' hline htok] at hin
  · intro h
    constructor
    · intro cfg hcfg
      obtain ⟨pos, e, hline, hb⟩ := decodeConfirmed_eq_some.mp hcfg
      exact (confirmed_blobIn_iff hs hline).mpr (h.confirmed pos hline) cfg e hb
    · intro r hr
      obtain ⟨pos, tok, next, e, hline, htok, hne, hall, hb, -⟩ := decodePending_eq_some.mp hr
      exact ⟨tok, (takeLine_eq_some htok).2.1,
        (pending_blobIn_iff hs hline htok).mpr (h.pending pos hline tok next htok hne hall)
          _ e hb⟩

theorem honestRecord_small : HonestRecord "c1\n2\nab".toList ∧ RecordFits "c1\n2\nab".toList := by
  have htag : takeLine "c1\n2\nab".toList 0 = some (kConfirmedTag, 3) := by decide
  have hfits : RecordFits "c1\n2\nab".toList := by
    constructor
    · intro pos hline len next hlen _ _
      obtain ⟨-, rfl⟩ := Prod.mk.inj (Option.some.inj (htag.symm.trans hline))
      have hnext : takeLine "c1\n2\nab".toList 3 = some ("2".toList, 5) := by decide
      obtain ⟨rfl, rfl⟩ := Prod.mk.inj (Option.some.inj (hnext.symm.trans hlen))
      decide
    · intro pos hline
      exact absurd (Prod.mk.inj (Option.some.inj (htag.symm.trans hline))).1 (by decide)
  exact ⟨(honestRecord_iff (by decide)).mpr hfits, hfits⟩

/-- A length of all ones wraps around, and the two characters that are left are the blob. -/
theorem not_honestRecord : ¬ ∀ text : Text, HonestRecord text := by
  intro h
  have hdecoded : decodeConfirmed "c1\n4294967295\nab".toList = some "ab".toList := by decide
  obtain ⟨len, rest, htext, hfree, hlen⟩ := (h _).confirmed _ hdecoded
  have hline := takeLine_append (kConfirmedTag ++ ['\n']) ("ab".toList ++ rest) hfree
  rw [← htext] at hline
  have hread : takeLine "c1\n4294967295\nab".toList (kConfirmedTag ++ ['\n']).length =
      some ("4294967295".toList, 14) := by decide
  obtain ⟨rfl, -⟩ := Prod.mk.inj (Option.some.inj (hread.symm.trans hline))
  exact absurd hlen (by decide)

end Machino.Net
