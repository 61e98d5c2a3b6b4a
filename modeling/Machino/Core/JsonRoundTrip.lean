import Mathlib.Tactic.Positivity
import Mathlib.Tactic.Ring
import Machino.Core.JsonText

namespace Machino

namespace Double

theorem roundHalfEven_intCast (n : ℤ) : roundHalfEven n = n := by
  unfold roundHalfEven
  rw [Int.floor_intCast]
  exact if_pos (by rw [sub_self]; norm_num)

/-- The last bit of an integer below 2^53 weighs at most 1. -/
theorem exists_mul_unit {a : ℕ} (ha : a ≠ 0) (hle : a ≤ 2 ^ 53) :
    ∃ m : ℤ, (a : ℚ) = m * 2 ^ exponent a := by
  have hlog : Int.log 2 (a : ℚ) = Nat.log 2 a := Int.log_natCast 2 a
  have hexp : exponent a = (Nat.log 2 a : ℤ) - 52 := by
    unfold exponent
    rw [hlog]
    omega
  by_cases hlt : a < 2 ^ 53
  · have h53 : Nat.log 2 a < 53 := Nat.log_lt_of_lt_pow ha hlt
    refine ⟨a * 2 ^ (52 - Nat.log 2 a), ?_⟩
    have hsum : ((52 - Nat.log 2 a : ℕ) : ℤ) + ((Nat.log 2 a : ℤ) - 52) = 0 := by omega
    rw [hexp]
    push_cast
    rw [mul_assoc, ← zpow_natCast, ← zpow_add₀ (by norm_num), hsum, zpow_zero, mul_one]
  · obtain rfl : a = 2 ^ 53 := by omega
    refine ⟨2 ^ 52, ?_⟩
    rw [hexp, Nat.log_pow (by decide)]
    norm_num

theorem ofRat_intCast {n : ℤ} (hn : |n| ≤ 2 ^ 53) : ofRat n = some (n : ℚ) := by
  unfold ofRat
  by_cases h0 : n = 0
  · simp [h0]
  · have habs : n.natAbs ≤ 2 ^ 53 := by
      rw [Int.abs_eq_natAbs] at hn
      omega
    have hcast : |(n : ℚ)| = (n.natAbs : ℚ) := by
      rw [← Int.cast_abs, Int.abs_eq_natAbs]
      rfl
    obtain ⟨m, hm⟩ := exists_mul_unit (Int.natAbs_ne_zero.mpr h0) habs
    have hunit : (2 : ℚ) ^ exponent (n.natAbs : ℚ) ≠ 0 := zpow_ne_zero _ (by norm_num)
    have hdiv : (n.natAbs : ℚ) / 2 ^ exponent (n.natAbs : ℚ) = m := by
      rw [div_eq_iff hunit]
      exact hm
    have hsmall : ¬ (2 : ℚ) ^ 1024 ≤ (n.natAbs : ℚ) := by
      have hle : (n.natAbs : ℚ) ≤ 2 ^ 53 := by exact_mod_cast habs
      exact not_le.mpr (hle.trans_lt (pow_lt_pow_right₀ (by norm_num) (by decide)))
    dsimp only
    rw [hcast, hdiv, roundHalfEven_intCast, ← hm, if_neg (Int.cast_ne_zero.mpr h0), if_neg hsmall,
      ← hcast]
    by_cases hneg : (n : ℚ) < 0
    · rw [if_pos hneg, abs_of_neg hneg, neg_neg]
    · rw [if_neg hneg, abs_of_nonneg (not_lt.mp hneg)]

end Double

namespace Json

theorem hexValue_hexDigit : ∀ d < 16, hexValue (hexDigit d) = some d := by decide

section strings

variable (lim : Limits) (total : ℕ)

/-- One character of a string is read back from what it is written as. -/
theorem strBody_escape {out : Text} (c : Char) (rest : Text) (h : out.length < lim.maxString) :
    strBody lim total out (escape c ++ rest) = strBody lim total (out ++ [c]) rest := by
  have hroom (d : Char) : ¬ lim.maxString < (out ++ [d]).length := by
    rw [List.length_append, List.length_singleton]
    omega
  have hescaped {e d : Char} (hu : e ≠ 'u') (hd : unescape e = some d) :
      strBody lim total out ('\\' :: e :: rest) = strBody lim total (out ++ [d]) rest := by
    rw [strBody, if_neg hu, hd]
    · exact if_neg (hroom d)
    · intro a b c d r he
      exact absurd he hu
  unfold escape
  split_ifs with hq hb hn hr ht hctl
  · subst hq
    exact hescaped (by decide) rfl
  · subst hb
    exact hescaped (by decide) rfl
  · subst hn
    exact hescaped (by decide) rfl
  · subst hr
    exact hescaped (by decide) rfl
  · subst ht
    exact hescaped (by decide) rfl
  · have hval : c.toNat / 16 ^ 3 % 16 * 16 ^ 3 + c.toNat / 16 ^ 2 % 16 * 16 ^ 2 +
        c.toNat / 16 % 16 * 16 + c.toNat % 16 = c.toNat := by omega
    have hutf : utf8 c.toNat = [c] := by
      unfold utf8
      rw [if_pos (by omega), Char.ofNat_toNat]
    have hdigit (d : ℕ) : hexValue (hexDigit (d % 16)) = some (d % 16) :=
      hexValue_hexDigit _ (Nat.mod_lt _ (by decide))
    unfold hex4
    rw [List.cons_append, List.cons_append, List.cons_append, List.cons_append, List.cons_append,
      List.cons_append, List.nil_append, strBody]
    simp only [hdigit]
    rw [hval, hutf, if_neg (hroom c)]
  · rw [List.singleton_append, strBody, if_neg hctl]
    · exact if_neg (hroom c)
    · exact hq
    · exact fun h _ => hb h
    · exact fun _ _ _ _ _ h _ => hb h
    · exact fun _ _ h _ => hb h

theorem strBody_flatMap_escape (s rest out : Text)
    (h : out.length + s.length ≤ lim.maxString) :
    strBody lim total out (s.flatMap escape ++ '"' :: rest) = .ok (out ++ s, rest) := by
  induction s generalizing out with
  | nil =>
    rw [List.flatMap_nil, List.nil_append, strBody, List.append_nil]
  | cons c s ih =>
    rw [List.length_cons] at h
    rw [List.flatMap_cons, List.append_assoc, strBody_escape lim total c _ (by omega), ih (out ++ [c])]
    · rw [List.append_assoc, List.singleton_append]
    · rw [List.length_append, List.length_singleton]
      omega

theorem str_dumpString (s rest : Text) (h : s.length ≤ lim.maxString) :
    str lim total (dumpString s ++ rest) = .ok (s, rest) := by
  have hbody := strBody_flatMap_escape lim total s rest [] (by simpa using h)
  unfold dumpString
  rw [List.append_assoc, List.cons_append, str]
  exact hbody

end strings

/-- What can stand behind a number without being read as a part of it. -/
def EndsNumber (s : Text) : Prop :=
  ∀ c ∈ s.head?, c.isDigit = false ∧ c ≠ '.' ∧ c ≠ 'e' ∧ c ≠ 'E'

theorem endsNumber_nil : EndsNumber [] := fun _ h => absurd h (by simp)

theorem endsNumber_cons {c : Char} (s : Text)
    (h : c.isDigit = false ∧ c ≠ '.' ∧ c ≠ 'e' ∧ c ≠ 'E') : EndsNumber (c :: s) := by
  intro d hd
  obtain rfl := Option.some.inj hd
  exact h

section numbers

variable (total : ℕ) {rest : Text} (hrest : EndsNumber rest)
include hrest

theorem digits_ofNat (n : ℕ) : digits (Text.ofNat n ++ rest) = some (Text.ofNat n, rest) := by
  have hnone : rest.takeWhile Char.isDigit = [] := by
    cases rest with
    | nil => rfl
    | cons c s => exact List.takeWhile_cons_of_neg (by simp [(hrest c rfl).1])
  have htake : (Text.ofNat n ++ rest).takeWhile Char.isDigit = Text.ofNat n := by
    rw [List.takeWhile_append_of_pos fun c => Text.isDigit_of_mem_ofNat, hnone, List.append_nil]
  unfold digits
  dsimp only
  rw [htake, if_neg (Text.ofNat_ne_nil n), List.drop_left]

theorem fraction_of_endsNumber : fraction total rest = .ok ([], rest) := by
  unfold fraction
  split
  · exact absurd rfl (hrest '.' rfl).2.1
  · rfl

theorem exponent_of_endsNumber : exponent total rest = .ok ((false, []), rest) := by
  cases rest with
  | nil => rfl
  | cons c s =>
    have hc := hrest c rfl
    unfold exponent
    exact if_neg (by simp [hc.2.2])

omit hrest in
theorem minus_ofInt (n : ℤ) :
    minus (Text.ofInt n ++ rest) = (decide (n < 0), Text.ofNat n.natAbs ++ rest) := by
  unfold Text.ofInt
  split_ifs with h
  · rw [decide_eq_true h]
    rfl
  · obtain ⟨c, s, hs⟩ := List.exists_cons_of_ne_nil (Text.ofNat_ne_nil n.natAbs)
    have hc : c.isDigit = true := Text.isDigit_of_mem_ofNat (n := n.natAbs) (by simp [hs])
    rw [decide_eq_false h, hs, List.cons_append]
    unfold minus
    split
    · rename_i heq
      cases heq
      exact absurd hc (by decide)
    · rfl

omit hrest in
theorem strtod_ofInt {n : ℤ} (hn : |n| ≤ 2 ^ 53) :
    strtod (decide (n < 0)) (Text.ofNat n.natAbs) [] false [] = some (n : ℚ) := by
  have hsigned : (if decide (n < 0) = true then -(n.natAbs : ℚ) else n.natAbs) = n := by
    rw [Nat.cast_natAbs, Int.cast_abs]
    split_ifs with h
    · rw [abs_of_neg (Int.cast_lt_zero.mpr (of_decide_eq_true h)), neg_neg]
    · exact abs_of_nonneg (Int.cast_nonneg (by simpa using h))
  have hzero : ((Text.ofDigits 10 [] : ℕ) : ℤ) - (([] : Text).length : ℤ) = 0 := rfl
  unfold strtod
  rw [List.append_nil, Text.ofDigits_ofNat, if_neg Bool.false_ne_true]
  dsimp only
  rw [hsigned, hzero, zpow_zero, mul_one]
  exact Double.ofRat_intCast hn

theorem readNumber_ofInt {n : ℤ} (hn : |n| ≤ 2 ^ 53) :
    readNumber total (Text.ofInt n ++ rest) = .ok (.number n, rest) := by
  have hlen : (Text.ofInt n).length ≤ 40 := by
    have hdigits : (Text.ofNat n.natAbs).length ≤ 39 := by
      refine (Nat.length_toDigits_le_iff (by decide) (by decide)).mpr ?_
      rw [Int.abs_eq_natAbs] at hn
      omega
    unfold Text.ofInt
    split_ifs
    · rw [List.length_cons]
      omega
    · omega
  unfold readNumber
  rw [minus_ofInt]
  dsimp only
  rw [digits_ofNat hrest]
  dsimp only
  rw [fraction_of_endsNumber total hrest]
  dsimp only [bind, Except.bind]
  rw [exponent_of_endsNumber total hrest]
  dsimp only
  rw [if_neg (by rw [List.length_append]; omega), strtod_ofInt hn]

end numbers

mutual

/-- The levels of a value. -/
def depth : Json → ℕ
  | array vs => depthItems vs + 1
  | object ms => depthMembers ms + 1
  | _ => 1

def depthItems : List Json → ℕ
  | [] => 0
  | v :: vs => max v.depth (depthItems vs)

def depthMembers : List (Text × Json) → ℕ
  | [] => 0
  | (_, v) :: ms => max v.depth (depthMembers ms)

end

mutual

/-- Numbers are integers up to 2^53, strings are not too long, and no key is there twice. -/
def Plain (lim : Limits) : Json → Prop
  | null | bool _ => True
  | number n => n.den = 1 ∧ |n.num| ≤ 2 ^ 53
  | string s => s.length ≤ lim.maxString
  | array vs => PlainItems lim vs
  | object ms => (ms.map Prod.fst).Nodup ∧ PlainMembers lim ms

def PlainItems (lim : Limits) : List Json → Prop
  | [] => True
  | v :: vs => v.Plain lim ∧ PlainItems lim vs

def PlainMembers (lim : Limits) : List (Text × Json) → Prop
  | [] => True
  | (k, v) :: ms => k.length ≤ lim.maxString ∧ v.Plain lim ∧ PlainMembers lim ms

end

theorem ws_cons {c : Char} (s : Text) (h : c ≠ ' ' ∧ c ≠ '\t' ∧ c ≠ '\n' ∧ c ≠ '\r') :
    ws (c :: s) = c :: s :=
  List.dropWhile_cons_of_neg (by simp [h])

theorem lit_eq_false {word : String} {c d : Char} {w : Text} (s : Text) (hw : word.toList = d :: w)
    (hne : c ≠ d) : lit word (c :: s) = false := by
  unfold lit
  rw [hw, List.isPrefixOf_cons_cons]
  simp [hne.symm]

theorem dumpNumber_of_plain {n : ℚ} (h : n.den = 1 ∧ |n.num| ≤ 2 ^ 53) :
    dumpNumber n = Text.ofInt n.num := by
  have hn : (n.num : ℚ) = n := Rat.coe_int_num_of_den_eq_one h.1
  obtain ⟨hlo, hhi⟩ := abs_le.mp h.2
  have hlo' : (-9200000000000000000 : ℚ) ≤ n := by
    rw [← hn]
    exact_mod_cast (by omega : (-9200000000000000000 : ℤ) ≤ n.num)
  have hhi' : n ≤ (9200000000000000000 : ℚ) := by
    rw [← hn]
    exact_mod_cast (by omega : n.num ≤ (9200000000000000000 : ℤ))
  unfold dumpNumber
  rw [if_pos]
  simp [isInteger, h.1, hlo', hhi']

/-- How a value begins: with no blank, and not as what closes one. -/
theorem exists_dump {lim : Limits} {v : Json} (hv : v.Plain lim) :
    ∃ c s, dump v = c :: s ∧ (c ≠ ' ' ∧ c ≠ '\t' ∧ c ≠ '\n' ∧ c ≠ '\r') ∧ c ≠ ']' := by
  cases v with
  | null => exact ⟨'n', _, by rw [dump]; rfl, by decide, by decide⟩
  | bool b =>
    cases b with
    | false => exact ⟨'f', _, by rw [dump]; rfl, by decide, by decide⟩
    | true => exact ⟨'t', _, by rw [dump]; rfl, by decide, by decide⟩
  | number n =>
    rw [Plain] at hv
    rw [dump, dumpNumber_of_plain hv]
    unfold Text.ofInt
    split_ifs
    · exact ⟨'-', _, rfl, by decide, by decide⟩
    · obtain ⟨c, s, hs⟩ := List.exists_cons_of_ne_nil (Text.ofNat_ne_nil n.num.natAbs)
      have hc : c.isDigit = true := Text.isDigit_of_mem_ofNat (n := n.num.natAbs) (by simp [hs])
      refine ⟨c, s, hs, ⟨?_, ?_, ?_, ?_⟩, ?_⟩ <;> rintro rfl <;> exact absurd hc (by decide)
  | string s => exact ⟨'"', _, by rw [dump]; rfl, by decide, by decide⟩
  | array vs => exact ⟨'[', _, by rw [dump]; rfl, by decide, by decide⟩
  | object ms => exact ⟨'{', _, by rw [dump]; rfl, by decide, by decide⟩

theorem exists_dumpItems {lim : Limits} {v : Json} (vs : List Json)
    (hv : PlainItems lim (v :: vs)) : ∃ c s, dumpItems (v :: vs) = c :: s ∧
      (c ≠ ' ' ∧ c ≠ '\t' ∧ c ≠ '\n' ∧ c ≠ '\r') ∧ c ≠ ']' := by
  rw [PlainItems] at hv
  obtain ⟨c, s, hs, hc⟩ := exists_dump hv.1
  cases vs with
  | nil => exact ⟨c, s, by rw [dumpItems, hs], hc⟩
  | cons w vs => exact ⟨c, _, by rw [dumpItems, hs, List.cons_append], hc⟩

theorem exists_dumpMembers (k : Text) (v : Json) (ms : List (Text × Json)) :
    ∃ s, dumpMembers ((k, v) :: ms) = '"' :: s := by
  cases ms with
  | nil => exact ⟨_, by rw [dumpMembers]; rfl⟩
  | cons m ms => exact ⟨_, by rw [dumpMembers]; rfl⟩

theorem length_le_length_dumpItems (vs : List Json) : vs.length ≤ (dumpItems vs).length + 1 := by
  induction vs with
  | nil => exact Nat.zero_le _
  | cons v vs ih =>
    cases vs with
    | nil => exact Nat.le_add_left _ _
    | cons w vs =>
      rw [dumpItems]
      simp only [List.length_append, List.length_cons] at ih ⊢
      omega

theorem length_le_length_dumpMembers (ms : List (Text × Json)) :
    ms.length ≤ (dumpMembers ms).length + 1 := by
  induction ms with
  | nil => exact Nat.zero_le _
  | cons m ms ih =>
    cases ms with
    | nil => exact Nat.le_add_left _ _
    | cons m' ms =>
      rw [dumpMembers]
      simp only [List.length_append, List.length_cons] at ih ⊢
      omega

theorem ne_of_nodup_keys {acc ms : List (Text × Json)} {k : Text} {v : Json}
    (h : ((acc ++ (k, v) :: ms).map Prod.fst).Nodup) : ∀ m ∈ acc, m.1 ≠ k := by
  rintro m hm rfl
  rw [List.map_append, List.map_cons, List.nodup_append] at h
  exact h.2.2 m.1 (List.mem_map_of_mem hm) m.1 List.mem_cons_self rfl

section values

variable (lim : Limits) (total : ℕ)

theorem value_number {n : ℤ} {rest : Text} (d : ℕ) (hn : |n| ≤ 2 ^ 53) (hrest : EndsNumber rest) :
    value lim total (d + 1) (Text.ofInt n ++ rest) = .ok (.number n, rest) := by
  have hread := readNumber_ofInt total hrest hn
  obtain ⟨c, s, hs, hc⟩ : ∃ c s, Text.ofInt n ++ rest = c :: s ∧ (c = '-' ∨ c.isDigit = true) := by
    unfold Text.ofInt
    split_ifs
    · exact ⟨'-', _, rfl, .inl rfl⟩
    · obtain ⟨c, s, hs⟩ := List.exists_cons_of_ne_nil (Text.ofNat_ne_nil n.natAbs)
      exact ⟨c, s ++ rest, by rw [hs, List.cons_append],
        .inr (Text.isDigit_of_mem_ofNat (n := n.natAbs) (by simp [hs]))⟩
  have hne (e : Char) (he : e ≠ '-') (hd : e.isDigit = false) : c ≠ e := by
    rintro rfl
    rcases hc with rfl | hc
    · exact he rfl
    · exact absurd hc (by simp [hd])
  rw [hs] at hread ⊢
  rw [value, ws_cons s ⟨hne _ (by decide) (by decide), hne _ (by decide) (by decide),
    hne _ (by decide) (by decide), hne _ (by decide) (by decide)⟩]
  split
  · rename_i heq
    cases heq
  · rename_i heq
    cases heq
    exact absurd rfl (hne '{' (by decide) (by decide))
  · rename_i heq
    cases heq
    exact absurd rfl (hne '[' (by decide) (by decide))
  · rename_i heq
    cases heq
    exact absurd rfl (hne '"' (by decide) (by decide))
  · rename_i heq
    cases heq
    rw [lit_eq_false s rfl (hne 't' (by decide) (by decide)),
      lit_eq_false s rfl (hne 'f' (by decide) (by decide)),
      lit_eq_false s rfl (hne 'n' (by decide) (by decide)), if_neg Bool.false_ne_true,
      if_neg Bool.false_ne_true, if_neg Bool.false_ne_true, if_pos hc]
    exact hread

theorem value_quote (d : ℕ) {s t rest : Text} (h : str lim total ('"' :: s) = .ok (t, rest)) :
    value lim total (d + 1) ('"' :: s) = .ok (.string t, rest) := by
  rw [value]
  change (str lim total ('"' :: s) >>= fun r => pure (string r.1, r.2)) = _
  rw [h]
  rfl

theorem value_bracket (d : ℕ) {c : Char} {s : Text} (hne : c ≠ ']')
    (hc : c ≠ ' ' ∧ c ≠ '\t' ∧ c ≠ '\n' ∧ c ≠ '\r') :
    value lim total (d + 1) ('[' :: c :: s) =
      items total (value lim total d) ((c :: s).length + 1) [] (c :: s) := by
  have hopen : ws ('[' :: c :: s) = '[' :: c :: s := rfl
  rw [value, hopen]
  simp only [ws_cons s hc]
  split
  · rename_i heq
    cases heq
    exact absurd rfl hne
  · rfl

theorem value_brace (d : ℕ) (s : Text) :
    value lim total (d + 1) ('{' :: '"' :: s) =
      objectMembers lim total (value lim total d) (('"' :: s).length + 1) [] ('"' :: s) := by
  rw [value]
  rfl

section members

variable {value : Text → Except String (Json × Text)} {acc : List (Text × Json)} {k s rest : Text}
  {v : Json} (hk : k.length ≤ lim.maxString) (hnew : ∀ m ∈ acc, m.1 ≠ k)
include hk hnew

theorem objectMembers_comma (fuel : ℕ) (h : value s = .ok (v, ',' :: rest)) :
    objectMembers lim total value (fuel + 1) acc (dumpString k ++ ':' :: s) =
      objectMembers lim total value fuel (acc ++ [(k, v)]) rest := by
  have hkey := str_dumpString lim total k (':' :: s) hk
  have hopen : ws (dumpString k ++ ':' :: s) = dumpString k ++ ':' :: s := rfl
  have hany : acc.any (·.1 = k) = false := by simpa using hnew
  rw [objectMembers, hopen, hkey]
  change (value s >>= _) = _
  rw [h]
  change (if acc.any (·.1 = k) = true then _ else _) = _
  rw [hany, if_neg Bool.false_ne_true]
  rfl

theorem objectMembers_close (fuel : ℕ) (h : value s = .ok (v, '}' :: rest)) :
    objectMembers lim total value (fuel + 1) acc (dumpString k ++ ':' :: s) =
      .ok (.object (acc ++ [(k, v)]), rest) := by
  have hkey := str_dumpString lim total k (':' :: s) hk
  have hopen : ws (dumpString k ++ ':' :: s) = dumpString k ++ ':' :: s := rfl
  have hany : acc.any (·.1 = k) = false := by simpa using hnew
  rw [objectMembers, hopen, hkey]
  change (value s >>= _) = _
  rw [h]
  change (if acc.any (·.1 = k) = true then _ else _) = _
  rw [hany, if_neg Bool.false_ne_true]
  rfl

end members

mutual

/-- A value is read back whatever comes behind it. -/
theorem value_dump : ∀ (v : Json) (d : ℕ) (rest : Text), v.Plain lim → v.depth ≤ d →
    EndsNumber rest → value lim total d (dump v ++ rest) = .ok (v, rest)
  | null, d + 1, rest, _, _, _ => by
    rw [dump, value]
    rfl
  | bool true, d + 1, rest, _, _, _ => by
    rw [dump, value]
    rfl
  | bool false, d + 1, rest, _, _, _ => by
    rw [dump, value]
    rfl
  | number n, d + 1, rest, hv, _, hrest => by
    rw [Plain] at hv
    have hread := value_number lim total d hv.2 hrest
    rw [Rat.coe_int_num_of_den_eq_one hv.1] at hread
    rw [dump, dumpNumber_of_plain hv]
    exact hread
  | string s, d + 1, rest, hv, _, _ => by
    rw [Plain] at hv
    have hbegins : dumpString s ++ rest = '"' :: (s.flatMap escape ++ '"' :: rest) := by
      simp [dumpString]
    rw [dump, hbegins]
    apply value_quote
    rw [← hbegins]
    exact str_dumpString lim total s rest hv
  | array [], d + 1, rest, _, _, _ => by
    rw [dump, dumpItems, value]
    rfl
  | array (v :: vs), d + 1, rest, hv, hd, _ => by
    rw [Plain] at hv
    have hitems := items_dumpItems (v :: vs) d ((dumpItems (v :: vs) ++ ']' :: rest).length + 1)
      rest [] (List.cons_ne_nil v vs) hv (Nat.le_of_succ_le_succ hd) (by
        have hlen := length_le_length_dumpItems (v :: vs)
        simp only [List.length_append, List.length_cons] at hlen ⊢
        omega)
    obtain ⟨c, s, hs, hc, hne⟩ := exists_dumpItems vs hv
    rw [hs, List.cons_append] at hitems
    rw [dump, List.append_assoc, List.cons_append, List.singleton_append, hs, List.cons_append,
      value_bracket lim total d hne hc]
    exact hitems
  | object [], d + 1, rest, _, _, _ => by
    rw [dump, dumpMembers, value]
    rfl
  | object ((k, v) :: ms), d + 1, rest, hv, hd, _ => by
    rw [Plain] at hv
    have hmembers := objectMembers_dumpMembers ((k, v) :: ms) d
      ((dumpMembers ((k, v) :: ms) ++ '}' :: rest).length + 1) rest [] (List.cons_ne_nil _ ms)
      hv.1 hv.2 (Nat.le_of_succ_le_succ hd) (by
        have hlen := length_le_length_dumpMembers ((k, v) :: ms)
        simp only [List.length_append, List.length_cons] at hlen ⊢
        omega)
    obtain ⟨s, hs⟩ := exists_dumpMembers k v ms
    rw [hs, List.cons_append] at hmembers
    rw [dump, List.append_assoc, List.cons_append, List.singleton_append, hs, List.cons_append,
      value_brace]
    exact hmembers

theorem items_dumpItems : ∀ (vs : List Json) (d fuel : ℕ) (rest : Text) (acc : List Json),
    vs ≠ [] → PlainItems lim vs → depthItems vs ≤ d → vs.length ≤ fuel →
    items total (value lim total d) fuel acc (dumpItems vs ++ ']' :: rest) =
      .ok (.array (acc ++ vs), rest)
  | [v], d, fuel + 1, rest, acc, _, hv, hd, _ => by
    rw [PlainItems] at hv
    rw [depthItems] at hd
    have hvalue := value_dump v d (']' :: rest) hv.1 (by omega)
      (endsNumber_cons _ (by decide))
    rw [dumpItems, items, hvalue]
    rfl
  | v :: w :: vs, d, fuel + 1, rest, acc, _, hv, hd, hf => by
    rw [PlainItems] at hv
    rw [depthItems] at hd
    have hvalue := value_dump v d (',' :: (dumpItems (w :: vs) ++ ']' :: rest)) hv.1
      (by omega) (endsNumber_cons _ (by decide))
    have hrest := items_dumpItems (w :: vs) d fuel rest (acc ++ [v]) (List.cons_ne_nil w vs)
      hv.2 (by omega) (Nat.le_of_succ_le_succ hf)
    rw [List.append_assoc, List.singleton_append] at hrest
    rw [dumpItems, List.append_assoc, List.cons_append, items, hvalue]
    exact hrest

theorem objectMembers_dumpMembers : ∀ (ms : List (Text × Json)) (d fuel : ℕ) (rest : Text)
    (acc : List (Text × Json)), ms ≠ [] → ((acc ++ ms).map Prod.fst).Nodup →
    PlainMembers lim ms → depthMembers ms ≤ d → ms.length ≤ fuel →
    objectMembers lim total (value lim total d) fuel acc (dumpMembers ms ++ '}' :: rest) =
      .ok (.object (acc ++ ms), rest)
  | [(k, v)], d, fuel + 1, rest, acc, _, hnd, hv, hd, _ => by
    rw [PlainMembers] at hv
    rw [depthMembers] at hd
    have hvalue := value_dump v d ('}' :: rest) hv.2.1 (by omega)
      (endsNumber_cons _ (by decide))
    rw [dumpMembers, List.append_assoc, List.cons_append]
    exact objectMembers_close lim total hv.1 (ne_of_nodup_keys hnd) fuel hvalue
  | (k, v) :: (k', w) :: ms, d, fuel + 1, rest, acc, _, hnd, hv, hd, hf => by
    rw [PlainMembers] at hv
    rw [depthMembers] at hd
    have hvalue := value_dump v d
      (',' :: (dumpMembers ((k', w) :: ms) ++ '}' :: rest)) hv.2.1 (by omega)
      (endsNumber_cons _ (by decide))
    have hrest := objectMembers_dumpMembers ((k', w) :: ms) d fuel rest (acc ++ [(k, v)])
      (List.cons_ne_nil _ ms) (by simpa using hnd) hv.2.2 (by omega) (Nat.le_of_succ_le_succ hf)
    rw [List.append_assoc, List.singleton_append] at hrest
    rw [dumpMembers, List.append_assoc, List.append_assoc, List.cons_append, List.cons_append,
      objectMembers_comma lim total hv.1 (ne_of_nodup_keys hnd) fuel hvalue]
    exact hrest

end

end values

theorem parse_dump (lim : Limits) {v : Json} (hv : v.Plain lim) (hd : v.depth ≤ lim.maxDepth)
    (hsize : (dump v).length ≤ lim.maxBytes) : parse lim (dump v) = .ok v := by
  have hvalue := value_dump lim (dump v).length v lim.maxDepth [] hv hd endsNumber_nil
  rw [List.append_nil] at hvalue
  unfold parse
  rw [if_neg (Nat.not_lt.mpr hsize), hvalue]
  rfl

theorem parse_dump_bytes :
    parse {} (dump (.object [(['k', '"'], .array [.number (-9007199254740992), .null,
      .string [Char.ofNat 0, '\\', Char.ofNat 255, '\n']]), ([], .object [])])) =
    .ok (.object [(['k', '"'], .array [.number (-9007199254740992), .null,
      .string [Char.ofNat 0, '\\', Char.ofNat 255, '\n']]), ([], .object [])]) := by
  apply parse_dump
  · have hshort : 4 ≤ 4096 := by decide
    exact ⟨by decide, by decide, ⟨⟨rfl, by decide⟩, trivial, hshort, trivial⟩, by decide,
      ⟨List.nodup_nil, trivial⟩, trivial⟩
  · decide
  · decide

end Json

end Machino
