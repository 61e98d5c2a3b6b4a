import Mathlib.Algebra.Order.Group.Int
import Mathlib.Data.List.TakeWhile
import Machino.Core.Text

namespace Machino.Text

/-- `isspace`: a space, or a tab to a carriage return. -/
def isSpace (c : Char) : Bool := c = ' ' || (9 ≤ c.toNat && c.toNat ≤ 13)

/-- What a reader of a C string sees. -/
def cString (s : Text) : Text := s.takeWhile fun c => c.toNat ≠ 0

theorem cString_eq_self {s : Text} (h : ∀ c ∈ s, c.toNat ≠ 0) : cString s = s := by
  unfold cString
  rw [List.takeWhile_eq_self_iff]
  exact fun c hc => decide_eq_true (h c hc)

/-- The value of a digit, beyond all bases for anything else. -/
def digitValue (c : Char) : ℕ :=
  if c.isDigit then c.toNat - 48
  else if 'a' ≤ c ∧ c ≤ 'z' then c.toNat - 87
  else if 'A' ≤ c ∧ c ≤ 'Z' then c.toNat - 55
  else 36

def ofDigits (base : ℕ) (s : Text) : ℕ := s.foldl (fun n c => base * n + digitValue c) 0

/-- A sign in front of a number, true for a minus, and what comes behind it. -/
def sign : Text → Bool × Text
  | '-' :: s => (true, s)
  | '+' :: s => (false, s)
  | s => (false, s)

/-- Base 0 stands for what the number itself says. -/
def prefixBase (base : ℕ) (s : Text) : ℕ × Text :=
  if base ≠ 0 then (base, s)
  else
    match s with
    | '0' :: x :: c :: t =>
      if (x = 'x' ∨ x = 'X') ∧ digitValue c < 16 then (16, c :: t) else (8, s)
    | '0' :: _ => (8, s)
    | _ => (10, s)

/-- The amount and what is behind it; none where there are no digits. -/
def scanDigits (base : ℕ) (s : Text) : Option (ℕ × Text) :=
  let (base, s) := prefixBase base s
  let digits := s.takeWhile (digitValue · < base)
  if digits = [] then none else some (ofDigits base digits, s.drop digits.length)

def scanNumber (base : ℕ) (s : Text) : Option (Bool × ℕ × Text) :=
  let (neg, s) := sign (s.dropWhile isSpace)
  (scanDigits base s).map fun (n, rest) => (neg, n, rest)

/-- `strtol`, on a machine where a `long` has 32 bits. -/
def strtol (base : ℕ) (s : Text) : Option (Int × Text) :=
  (scanNumber base s).map fun (neg, n, rest) =>
    (max (-2 ^ 31) (min (if neg then -n else n) (2 ^ 31 - 1)), rest)

/-- What a `%u` reads, on a machine where an `unsigned long` has 32 bits. -/
def scanULong (s : Text) : Option (UInt32 × Text) :=
  (scanNumber 10 s).map fun (neg, n, rest) =>
    (if 2 ^ 32 ≤ n then 0xffffffff else if neg then -(UInt32.ofNat n) else UInt32.ofNat n, rest)

def atoi (s : Text) : Int := ((strtol 10 s).map Prod.fst).getD 0

/-- `strtoul` to base 10. -/
def strtoul (s : Text) : UInt32 := ((scanULong s).map Prod.fst).getD 0

/-- `strtoull` to base 10. -/
def strtoull (s : Text) : UInt64 :=
  ((scanNumber 10 s).map fun (neg, n, _) =>
    if 2 ^ 64 ≤ n then 0xffffffffffffffff
    else if neg then -(UInt64.ofNat n)
    else UInt64.ofNat n).getD 0

/-- `std::to_string`. -/
def ofNat (n : ℕ) : Text := Nat.toDigits 10 n

def ofInt (n : Int) : Text := if n < 0 then '-' :: ofNat n.natAbs else ofNat n.natAbs

theorem isDigit_of_mem_ofNat {n : ℕ} {c : Char} (h : c ∈ ofNat n) : c.isDigit = true :=
  Nat.isDigit_of_mem_toDigits (by decide) (by decide) h

theorem toNat_ne_zero_of_mem_ofInt {v : Int} {c : Char} (h : c ∈ ofInt v) : c.toNat ≠ 0 := by
  have hdigit : c ∈ ofNat v.natAbs → c.toNat ≠ 0 := fun hc => by
    have hbounds := Char.isDigit_iff_toNat.mp (isDigit_of_mem_ofNat hc)
    intro h0
    rw [h0] at hbounds
    exact absurd hbounds.1 (by decide)
  unfold ofInt at h
  split_ifs at h
  · rcases List.mem_cons.mp h with rfl | hc
    · decide
    · exact hdigit hc
  · exact hdigit h

theorem ofNat_ne_nil (n : ℕ) : ofNat n ≠ [] := Nat.toDigits_ne_nil

theorem digitValue_of_isDigit {c : Char} (h : c.isDigit = true) :
    digitValue c = c.toNat - 48 := if_pos h

theorem digitValue_lt_of_isDigit {c : Char} (h : c.isDigit = true) : digitValue c < 10 := by
  rw [digitValue_of_isDigit h]
  have hle : c.toNat ≤ 57 := by
    rw [Char.isDigit_iff_toNat] at h
    exact h.2
  omega

theorem ofDigits_eq_ofDigitChars {s : Text} (hs : ∀ c ∈ s, c.isDigit = true) :
    ofDigits 10 s = Nat.ofDigitChars 10 s 0 := by
  have hfold (m : ℕ) : s.foldl (fun n c => 10 * n + digitValue c) m = Nat.ofDigitChars 10 s m := by
    induction s generalizing m with
    | nil => rfl
    | cons c s ih =>
      rw [List.foldl_cons, ih (fun d hd => hs d (List.mem_cons_of_mem _ hd)),
        digitValue_of_isDigit (hs c List.mem_cons_self)]
      rfl
  exact hfold 0

theorem ofDigits_ofNat (n : ℕ) : ofDigits 10 (ofNat n) = n :=
  (ofDigits_eq_ofDigitChars fun _ => isDigit_of_mem_ofNat).trans Nat.ofDigitChars_ten_toDigits

theorem not_isSpace_of_isDigit {c : Char} (h : c.isDigit = true) : isSpace c = false := by
  rw [Char.isDigit_iff_toNat] at h
  have hne : c ≠ ' ' := by
    rintro rfl
    exact absurd h.1 (by decide)
  have h9 : ¬ c.toNat ≤ 13 := fun hle => absurd (h.1.trans hle) (by decide)
  simp [isSpace, hne, h9]

theorem sign_of_isDigit {c : Char} (h : c.isDigit = true) (s : Text) :
    sign (c :: s) = (false, c :: s) := by
  unfold sign
  split
  · rename_i heq
    cases heq
    exact absurd h (by decide)
  · rename_i heq
    cases heq
    exact absurd h (by decide)
  · rfl

theorem digitChar_ne_zero : ∀ d < 10, d ≠ 0 → Nat.digitChar d ≠ '0' := by decide

theorem head_ofNat {n : ℕ} (hn : n ≠ 0) : (ofNat n).head? ≠ some '0' := by
  induction n using Nat.strongRecOn with
  | ind n ih =>
    unfold ofNat at ih ⊢
    by_cases h : 10 ≤ n
    · obtain ⟨c, s, hs⟩ := List.exists_cons_of_ne_nil (Nat.toDigits_ne_nil (b := 10) (n := n / 10))
      have hhead := ih (n / 10) (by omega) (by omega)
      rw [hs] at hhead
      rw [Nat.toDigits_of_base_le (by decide) h, hs]
      exact hhead
    · rw [Nat.toDigits_of_lt_base (by omega)]
      intro heq
      exact digitChar_ne_zero n (by omega) hn (Option.some.inj heq)

/-- A printed number does not begin with a zero unless that is all of it. -/
theorem prefixBase_ofNat {n : ℕ} (hn : n ≠ 0) : prefixBase 0 (ofNat n) = (10, ofNat n) := by
  have hhead := head_ofNat hn
  unfold prefixBase
  rw [if_neg (by simp)]
  split
  · rename_i heq
    rw [heq] at hhead
    exact absurd rfl hhead
  · rename_i heq
    rw [heq] at hhead
    exact absurd rfl hhead
  · rfl

theorem scanDigits_ofNat {base : ℕ} (hb : base = 0 ∨ base = 10) (n : ℕ) :
    scanDigits base (ofNat n) = some (n, []) := by
  by_cases hz : base = 0 ∧ n = 0
  · obtain ⟨rfl, rfl⟩ := hz
    rfl
  · have hbase : prefixBase base (ofNat n) = (10, ofNat n) := by
      rcases hb with rfl | rfl
      · exact prefixBase_ofNat fun h => hz ⟨rfl, h⟩
      · rfl
    have htake : (ofNat n).takeWhile (digitValue · < 10) = ofNat n := by
      rw [List.takeWhile_eq_self_iff]
      exact fun d hd => decide_eq_true (digitValue_lt_of_isDigit (isDigit_of_mem_ofNat hd))
    unfold scanDigits
    rw [hbase]
    dsimp only
    rw [htake, if_neg (ofNat_ne_nil n), ofDigits_ofNat, List.drop_length]

theorem scanNumber_ofNat {base : ℕ} (hb : base = 0 ∨ base = 10) (n : ℕ) :
    scanNumber base (ofNat n) = some (false, n, []) := by
  obtain ⟨c, s, hs⟩ := List.exists_cons_of_ne_nil (ofNat_ne_nil n)
  have hc : c.isDigit = true := isDigit_of_mem_ofNat (n := n) (by rw [hs]; exact List.mem_cons_self)
  have hdrop : (ofNat n).dropWhile isSpace = ofNat n := by
    rw [hs, List.dropWhile_cons_of_neg (by simp [not_isSpace_of_isDigit hc])]
  have hsign : sign (ofNat n) = (false, ofNat n) := by
    rw [hs]
    exact sign_of_isDigit hc s
  unfold scanNumber
  rw [hdrop, hsign]
  dsimp only
  rw [scanDigits_ofNat hb]
  rfl

theorem scanNumber_neg_ofNat {base : ℕ} (hb : base = 0 ∨ base = 10) (n : ℕ) :
    scanNumber base ('-' :: ofNat n) = some (true, n, []) := by
  have hsign : sign ('-' :: ofNat n) = (true, ofNat n) := rfl
  unfold scanNumber
  rw [List.dropWhile_cons_of_neg (by decide), hsign]
  dsimp only
  rw [scanDigits_ofNat hb]
  rfl

/-- A number ends where its digits do. -/
theorem scanDigits_ofNat_append (n : ℕ) {rest : Text}
    (hrest : ∀ c, rest.head? = some c → 10 ≤ digitValue c) :
    scanDigits 10 (ofNat n ++ rest) = some (n, rest) := by
  have hend : rest.takeWhile (digitValue · < 10) = [] := by
    cases rest with
    | nil => rfl
    | cons c rest => exact List.takeWhile_cons_of_neg (by simpa using hrest c rfl)
  have htake : (ofNat n ++ rest).takeWhile (digitValue · < 10) = ofNat n := by
    rw [List.takeWhile_append_of_pos, hend, List.append_nil]
    exact fun d hd => decide_eq_true (digitValue_lt_of_isDigit (isDigit_of_mem_ofNat hd))
  have hbase : prefixBase 10 (ofNat n ++ rest) = (10, ofNat n ++ rest) := rfl
  unfold scanDigits
  rw [hbase]
  dsimp only
  rw [htake, if_neg (ofNat_ne_nil n), ofDigits_ofNat, List.drop_left]

/-- A printed number behind a space is read up to its end. -/
theorem scanNumber_ofInt_append (v : ℤ) {rest : Text}
    (hrest : ∀ c, rest.head? = some c → 10 ≤ digitValue c) :
    scanNumber 10 (' ' :: (ofInt v ++ rest)) = some (decide (v < 0), v.natAbs, rest) := by
  have hspace : (' ' :: (ofInt v ++ rest)).dropWhile isSpace =
      (ofInt v ++ rest).dropWhile isSpace := List.dropWhile_cons_of_pos (by decide)
  unfold scanNumber
  rw [hspace, ofInt]
  split_ifs with hneg
  · have hsign : sign ('-' :: (ofNat v.natAbs ++ rest)) = (true, ofNat v.natAbs ++ rest) := rfl
    rw [List.cons_append, List.dropWhile_cons_of_neg (by decide), hsign]
    dsimp only
    rw [scanDigits_ofNat_append _ hrest, decide_eq_true hneg]
    rfl
  · obtain ⟨c, s, hs⟩ := List.exists_cons_of_ne_nil (ofNat_ne_nil v.natAbs)
    have hc : c.isDigit = true := isDigit_of_mem_ofNat (n := v.natAbs) (by simp [hs])
    have hdrop : (ofNat v.natAbs ++ rest).dropWhile isSpace = ofNat v.natAbs ++ rest := by
      rw [hs, List.cons_append,
        List.dropWhile_cons_of_neg (by simp [not_isSpace_of_isDigit hc])]
    have hsign : sign (ofNat v.natAbs ++ rest) = (false, ofNat v.natAbs ++ rest) := by
      rw [hs]
      exact sign_of_isDigit hc (s ++ rest)
    rw [hdrop, hsign]
    dsimp only
    rw [scanDigits_ofNat_append _ hrest, decide_eq_false hneg]
    rfl

/-- A printed `int` is read back whole. -/
theorem strtol_ofInt {base : ℕ} (hb : base = 0 ∨ base = 10) {n : Int} (hlo : -2 ^ 31 ≤ n)
    (hhi : n < 2 ^ 31) : strtol base (ofInt n) = some (n, []) := by
  unfold strtol ofInt
  split
  · rw [scanNumber_neg_ofNat hb]
    simp only [Option.map_some, if_true, Option.some.injEq, Prod.mk.injEq, and_true]
    omega
  · rw [scanNumber_ofNat hb]
    simp only [Option.map_some, Bool.false_eq_true, if_false, Option.some.injEq, Prod.mk.injEq,
      and_true]
    omega

theorem atoi_ofInt {n : Int} (hlo : -2 ^ 31 ≤ n) (hhi : n < 2 ^ 31) : atoi (ofInt n) = n := by
  unfold atoi
  rw [strtol_ofInt (.inr rfl) hlo hhi]
  rfl

theorem scanULong_ofNat {n : ℕ} (h : n < 2 ^ 32) : scanULong (ofNat n) = some (.ofNat n, []) := by
  unfold scanULong
  rw [scanNumber_ofNat (.inr rfl)]
  simp only [Option.map_some, Bool.false_eq_true, if_false, if_neg (Nat.not_le.mpr h)]

/-- Digits and nothing else are read whole. -/
theorem scanNumber_of_digits {s : Text} (hne : s ≠ []) (hs : s.all Char.isDigit = true) :
    scanNumber 10 s = some (false, Nat.ofDigitChars 10 s 0, []) := by
  rw [List.all_eq_true] at hs
  obtain ⟨c, t, rfl⟩ := List.exists_cons_of_ne_nil hne
  have hc : c.isDigit = true := hs c List.mem_cons_self
  have hdrop : (c :: t).dropWhile isSpace = c :: t :=
    List.dropWhile_cons_of_neg (by simp [not_isSpace_of_isDigit hc])
  have htake : (c :: t).takeWhile (digitValue · < 10) = c :: t := by
    rw [List.takeWhile_eq_self_iff]
    exact fun d hd => decide_eq_true (digitValue_lt_of_isDigit (hs d hd))
  have hbase : prefixBase 10 (c :: t) = (10, c :: t) := rfl
  unfold scanNumber scanDigits
  rw [hdrop, sign_of_isDigit hc]
  dsimp only
  rw [hbase]
  dsimp only
  rw [htake, if_neg hne, ofDigits_eq_ofDigitChars hs, List.drop_length]
  rfl

/-- No digits at all count as the digits of zero. -/
theorem getD_scanNumber_of_digits {α : Type} {s : Text} (hs : s.all Char.isDigit = true)
    (f : Bool × ℕ × Text → α) :
    ((scanNumber 10 s).map f).getD (f (false, 0, [])) = f (false, Nat.ofDigitChars 10 s 0, []) := by
  by_cases hne : s = []
  · rw [hne]
    rfl
  · rw [scanNumber_of_digits hne hs]
    rfl

/-- What does not fit is read as the largest value. -/
theorem strtoul_of_digits {s : Text} (hs : s.all Char.isDigit = true) :
    (strtoul s).toNat = min (Nat.ofDigitChars 10 s 0) (2 ^ 32 - 1) := by
  have hread : strtoul s = if 2 ^ 32 ≤ Nat.ofDigitChars 10 s 0 then 0xffffffff
      else UInt32.ofNat (Nat.ofDigitChars 10 s 0) := by
    unfold strtoul scanULong
    rw [Option.map_map]
    exact getD_scanNumber_of_digits hs _
  have hmax : (0xffffffff : UInt32).toNat = 2 ^ 32 - 1 := rfl
  rw [hread]
  split_ifs with hlarge
  · omega
  · rw [UInt32.toNat_ofNat_of_lt' (Nat.lt_of_not_le hlarge)]
    omega

theorem strtoull_of_digits {s : Text} (hs : s.all Char.isDigit = true) :
    (strtoull s).toNat = min (Nat.ofDigitChars 10 s 0) (2 ^ 64 - 1) := by
  have hread : strtoull s = if 2 ^ 64 ≤ Nat.ofDigitChars 10 s 0 then 0xffffffffffffffff
      else UInt64.ofNat (Nat.ofDigitChars 10 s 0) := getD_scanNumber_of_digits hs _
  have hmax : (0xffffffffffffffff : UInt64).toNat = 2 ^ 64 - 1 := rfl
  rw [hread]
  split_ifs with hlarge
  · omega
  · rw [UInt64.toNat_ofNat_of_lt' (Nat.lt_of_not_le hlarge)]
    omega

theorem strtoul_ofNat (n : UInt32) : strtoul (ofNat n.toNat) = n := by
  unfold strtoul
  rw [scanULong_ofNat n.toNat_lt]
  exact UInt32.ofNat_toNat

end Machino.Text
