import Machino.Core.Number
import Mathlib.Data.List.TakeDrop

namespace Machino.Net

/-- `unsigned long` and `size_t` have 32 bits on the camera. -/
def ulongSize : ℕ := 2 ^ 32

structure PendingRecord where
  token : UInt64 := 0
  candidate : Text := []
  deriving DecidableEq, Repr

/-- The blob behind its length, as a line of its own. -/
def blob (s : Text) : Text := Nat.toDigits 10 s.length ++ '\n' :: s

def kConfirmedTag : Text := ['c', '1']

def kPendingTag : Text := ['v', '1']

def encodeConfirmed (cfg : Text) : Text := kConfirmedTag ++ '\n' :: blob cfg

def encodePending (r : PendingRecord) : Text :=
  kPendingTag ++ '\n' :: Nat.toDigits 10 r.token.toNat ++ '\n' :: blob r.candidate

/-- The line at `pos`, and where the next one starts. -/
def takeLine (s : Text) (pos : ℕ) : Option (Text × ℕ) :=
  match (s.drop pos).findIdx? (· = '\n') with
  | none => none
  | some n => some ((s.drop pos).take n, pos + n + 1)

def takeBlob (s : Text) (pos : ℕ) : Option (Text × ℕ) :=
  match takeLine s pos with
  | none => none
  | some (len, pos) =>
    if len = [] then none
    else if !len.all Char.isDigit then none
    else
      let n := (Text.strtoul len).toNat
      if s.length < (pos + n) % ulongSize then none
      else some ((s.drop pos).take n, (pos + n) % ulongSize)

def decodeConfirmed (text : Text) : Option Text :=
  match takeLine text 0 with
  | none => none
  | some (tag, pos) =>
    if tag ≠ kConfirmedTag then none else (takeBlob text pos).map Prod.fst

def decodePending (text : Text) : Option PendingRecord :=
  match takeLine text 0 with
  | none => none
  | some (v, pos) =>
    if v ≠ kPendingTag then none
    else
      match takeLine text pos with
      | none => none
      | some (tok, pos) =>
        if tok = [] then none
        else if !tok.all Char.isDigit then none
        else (takeBlob text pos).map fun r => { token := Text.strtoull tok, candidate := r.1 }

theorem takeLine_append (pre : Text) {line : Text} (rest : Text) (h : '\n' ∉ line) :
    takeLine (pre ++ (line ++ '\n' :: rest)) pre.length =
      some (line, pre.length + line.length + 1) := by
  unfold takeLine
  rw [List.drop_left]
  have hfind : (line ++ '\n' :: rest).findIdx? (· = '\n') = some line.length := by
    rw [List.findIdx?_append, List.findIdx?_eq_none_iff.mpr]
    · simp [List.findIdx?_cons]
    · intro c hc
      have hne : c ≠ '\n' := by
        rintro rfl
        exact h hc
      simpa using hne
  rw [hfind]
  simp

theorem newline_notMem_toDigits (n : ℕ) : '\n' ∉ Nat.toDigits 10 n := by
  intro h
  have hd := Nat.isDigit_of_mem_toDigits (by decide) (by decide) h
  revert hd
  decide

theorem all_isDigit_toDigits (n : ℕ) : (Nat.toDigits 10 n).all Char.isDigit = true := by
  rw [List.all_eq_true]
  exact fun c hc => Nat.isDigit_of_mem_toDigits (by decide) (by decide) hc

theorem strtoul_toDigits {n : ℕ} (h : n < ulongSize) :
    (Text.strtoul (Nat.toDigits 10 n)).toNat = n := by
  rw [Text.strtoul_of_digits (all_isDigit_toDigits n), Nat.ofDigitChars_ten_toDigits]
  exact Nat.min_eq_left (Nat.le_sub_one_of_lt h)

theorem strtoull_toDigits (t : UInt64) : Text.strtoull (Nat.toDigits 10 t.toNat) = t := by
  apply UInt64.toNat_inj.mp
  rw [Text.strtoull_of_digits (all_isDigit_toDigits _), Nat.ofDigitChars_ten_toDigits]
  exact Nat.min_eq_left (Nat.le_sub_one_of_lt t.toNat_lt)

theorem takeBlob_append (pre s rest : Text)
    (h : (pre ++ (blob s ++ rest)).length < ulongSize) :
    takeBlob (pre ++ (blob s ++ rest)) pre.length =
      some (s, (pre ++ blob s).length) := by
  have hlen : (pre ++ (blob s ++ rest)).length =
      pre.length + (Nat.toDigits 10 s.length).length + 1 + s.length + rest.length := by
    simp [blob]
    omega
  have hline : takeLine (pre ++ (blob s ++ rest)) pre.length =
      some (Nat.toDigits 10 s.length, pre.length + (Nat.toDigits 10 s.length).length + 1) := by
    have h := takeLine_append pre (s ++ rest) (newline_notMem_toDigits s.length)
    simpa [blob] using h
  unfold takeBlob
  rw [hline]
  dsimp only
  rw [if_neg Nat.toDigits_ne_nil, all_isDigit_toDigits, strtoul_toDigits (by omega),
    Nat.mod_eq_of_lt (by omega)]
  have hdrop : ((pre ++ (blob s ++ rest)).drop
      (pre.length + (Nat.toDigits 10 s.length).length + 1)).take s.length = s := by
    have hsplit : pre ++ (blob s ++ rest) =
        (pre ++ Nat.toDigits 10 s.length ++ ['\n']) ++ (s ++ rest) := by simp [blob]
    rw [hsplit, List.drop_left' (by simp; omega)]
    exact List.take_left
  rw [hdrop, if_neg (by simp), if_neg (by omega)]
  simp [blob, Nat.add_assoc, Nat.add_comm 1]

theorem takeBlob_blob (pre : Text) {s : Text} (h : (pre ++ blob s).length < ulongSize) :
    takeBlob (pre ++ blob s) pre.length = some (s, (pre ++ blob s).length) := by
  have hb := takeBlob_append pre s [] (by simpa using h)
  simpa using hb

theorem decodeConfirmed_encodeConfirmed {cfg : Text}
    (h : (encodeConfirmed cfg).length < ulongSize) :
    decodeConfirmed (encodeConfirmed cfg) = some cfg := by
  have hline : takeLine (encodeConfirmed cfg) 0 = some (kConfirmedTag, 3) :=
    takeLine_append [] (blob cfg) (by decide : '\n' ∉ kConfirmedTag)
  have hblob : takeBlob (encodeConfirmed cfg) 3 = some (cfg, (encodeConfirmed cfg).length) :=
    takeBlob_blob ['c', '1', '\n'] h
  unfold decodeConfirmed
  rw [hline]
  simp [hblob]

theorem decodePending_encodePending {r : PendingRecord}
    (h : (encodePending r).length < ulongSize) :
    decodePending (encodePending r) = some r := by
  have hsplit : encodePending r =
      (['v', '1', '\n'] ++ (Nat.toDigits 10 r.token.toNat ++ ['\n'])) ++ blob r.candidate := by
    simp [encodePending, kPendingTag]
  have htag : takeLine (encodePending r) 0 = some (kPendingTag, 3) := by
    have hl := takeLine_append [] (Nat.toDigits 10 r.token.toNat ++ '\n' :: blob r.candidate)
      (by decide : '\n' ∉ kPendingTag)
    simpa [encodePending, kPendingTag] using hl
  have htok : takeLine (encodePending r) 3 = some (Nat.toDigits 10 r.token.toNat,
      3 + (Nat.toDigits 10 r.token.toNat).length + 1) := by
    have hl := takeLine_append ['v', '1', '\n'] (blob r.candidate)
      (newline_notMem_toDigits r.token.toNat)
    simpa [encodePending, kPendingTag] using hl
  have hblob : takeBlob (encodePending r) (3 + (Nat.toDigits 10 r.token.toNat).length + 1) =
      some (r.candidate, (encodePending r).length) := by
    have hb := takeBlob_blob _ (hsplit ▸ h)
    have hpos : (['v', '1', '\n'] ++ (Nat.toDigits 10 r.token.toNat ++ ['\n'])).length =
        3 + (Nat.toDigits 10 r.token.toNat).length + 1 := by
      simp
      omega
    rwa [← hsplit, hpos] at hb
  unfold decodePending
  rw [htag]
  dsimp only
  rw [if_neg (by simp), htok]
  dsimp only
  rw [if_neg Nat.toDigits_ne_nil, all_isDigit_toDigits, if_neg (by simp), hblob,
    strtoull_toDigits]
  rfl

end Machino.Net
