import Machino.Ipsec.MachinoConf
import Machino.Ipsec.WdConfig

namespace Machino.Text

theorem digitValue_lt_ten {c : Char} : digitValue c < 10 ↔ c.isDigit = true := by
  refine ⟨fun h => ?_, digitValue_lt_of_isDigit⟩
  by_contra hc
  unfold digitValue at h
  rw [if_neg hc] at h
  have hle {a b : Char} (hab : a ≤ b) : a.toNat ≤ b.toNat := hab
  split at h
  · rename_i ha
    have := hle ha.1
    have h97 : 'a'.toNat = 97 := rfl
    omega
  · split at h
    · rename_i ha
      have := hle ha.1
      have h65 : 'A'.toNat = 65 := rfl
      omega
    · omega

/-- What a number is scanned from: blanks, a sign and digits. -/
def numeral (c : Char) : Bool := isSpace c || c.isDigit || c = '+' || c = '-'

theorem sign_split (s : Text) : ∃ a, s = a ++ (sign s).2 ∧ ∀ c ∈ a, numeral c = true := by
  unfold sign
  split
  · exact ⟨['-'], rfl, List.forall_mem_singleton.mpr (by decide)⟩
  · exact ⟨['+'], rfl, List.forall_mem_singleton.mpr (by decide)⟩
  · exact ⟨[], rfl, List.forall_mem_nil _⟩

theorem scanDigits_split {s rest : Text} {n : ℕ} (h : scanDigits 10 s = some (n, rest)) :
    ∃ digits, s = digits ++ rest ∧ digits ≠ [] ∧ (∀ c ∈ digits, c.isDigit = true) ∧
      n = ofDigits 10 digits := by
  have hbase : prefixBase 10 s = (10, s) := rfl
  unfold scanDigits at h
  rw [hbase] at h
  dsimp only at h
  split at h
  · exact absurd h (by simp)
  · rename_i hne
    obtain ⟨rfl, rfl⟩ := Prod.mk.inj (Option.some.inj h)
    refine ⟨_, ?_, hne, fun c hc => ?_, rfl⟩
    · exact (List.prefix_iff_eq_append.mp (List.takeWhile_prefix _)).symm
    · have hlt : decide (digitValue c < 10) = true :=
        List.mem_takeWhile_imp (p := fun c => decide (digitValue c < 10)) hc
      exact digitValue_lt_ten.mp (of_decide_eq_true hlt)

/-- A number that is scanned ends with a digit. -/
theorem scanULong_split {s rest : Text} {n : UInt32} (h : scanULong s = some (n, rest)) :
    ∃ a d, s = a ++ d :: rest ∧ d.isDigit = true ∧ ∀ c ∈ a, numeral c = true := by
  obtain ⟨⟨neg, m, rest'⟩, hnum, heq⟩ := Option.map_eq_some_iff.mp h
  obtain rfl : rest' = rest := (Prod.mk.inj heq).2
  unfold scanNumber at hnum
  obtain ⟨⟨m', rest''⟩, hdigits, heq'⟩ := Option.map_eq_some_iff.mp hnum
  obtain rfl : rest'' = rest' := (Prod.mk.inj (Prod.mk.inj heq').2).2
  obtain ⟨digits, hs, hne, hdig, -⟩ := scanDigits_split hdigits
  obtain ⟨a, hsign, ha⟩ := sign_split (s.dropWhile isSpace)
  have hs : (sign (s.dropWhile isSpace)).2 = digits ++ rest'' := hs
  have hlast := List.dropLast_append_getLast hne
  refine ⟨s.takeWhile isSpace ++ a ++ digits.dropLast, digits.getLast hne, ?_,
    hdig _ (List.getLast_mem hne), fun c hc => ?_⟩
  · calc s = s.takeWhile isSpace ++ s.dropWhile isSpace := List.takeWhile_append_dropWhile.symm
      _ = s.takeWhile isSpace ++ (a ++ (digits ++ rest'')) := by rw [← hs, ← hsign]
      _ = s.takeWhile isSpace ++ (a ++ ((digits.dropLast ++ [digits.getLast hne]) ++ rest'')) := by
        rw [hlast]
      _ = _ := by simp
  · rw [List.mem_append, List.mem_append] at hc
    rcases hc with (hc | hc) | hc
    · simp [numeral, List.mem_takeWhile_imp hc]
    · exact ha c hc
    · simp [numeral, hdig c (List.dropLast_subset _ hc)]

end Machino.Text

namespace Machino.Ipsec

open Lines

theorem scanSeparated_append (seps : List Char) (sep : Char) (seps' : List Char) (s : Text) :
    scanSeparated (seps ++ sep :: seps') s =
      (scanSeparated seps s).bind fun (ns, rest) =>
        if rest.head? = some sep then
          (scanSeparated seps' rest.tail).map fun (ms, rest) => (ns ++ ms, rest)
        else none := by
  induction seps generalizing s with
  | nil =>
    rw [List.nil_append, scanSeparated, scanSeparated]
    cases Text.scanULong s with
    | none => rfl
    | some r => rfl
  | cons c seps ih =>
    rw [List.cons_append, scanSeparated, scanSeparated]
    cases Text.scanULong s with
    | none => rfl
    | some r =>
      simp only [Option.bind_some, ih]
      split
      · cases scanSeparated seps r.2.tail with
        | none => rfl
        | some q =>
          simp only [Option.bind_some, Option.map_some]
          split
          · simp [Function.comp_def]
          · rfl
      · rfl

/-- What is scanned so ends with a digit. -/
theorem scanSeparated_split {seps : List Char} {s rest : Text} {ns : List UInt32}
    (h : scanSeparated seps s = some (ns, rest)) :
    ∃ a d, s = a ++ d :: rest ∧ d.isDigit = true ∧
      ∀ c ∈ a, Text.numeral c = true ∨ c ∈ seps := by
  induction seps generalizing s ns with
  | nil =>
    obtain ⟨⟨n, rest'⟩, hn, heq⟩ := Option.map_eq_some_iff.mp h
    obtain rfl : rest' = rest := (Prod.mk.inj heq).2
    obtain ⟨a, d, hs, hd, ha⟩ := Text.scanULong_split hn
    exact ⟨a, d, hs, hd, fun c hc => .inl (ha c hc)⟩
  | cons sep seps ih =>
    obtain ⟨⟨n, s'⟩, hn, hrest⟩ := Option.bind_eq_some_iff.mp h
    dsimp only at hrest
    split at hrest
    · rename_i hhead
      obtain ⟨⟨ms, rest'⟩, hms, heq⟩ := Option.map_eq_some_iff.mp hrest
      obtain rfl : rest' = rest := (Prod.mk.inj heq).2
      obtain ⟨a, d, rfl, hd, ha⟩ := Text.scanULong_split hn
      obtain ⟨a', d', hs', hd', ha'⟩ := ih hms
      obtain ⟨t, rfl⟩ := List.head?_eq_some_iff.mp hhead
      rw [List.tail_cons] at hs'
      refine ⟨a ++ d :: sep :: a', d', by rw [hs']; simp, hd', fun c hc => ?_⟩
      rw [List.mem_append, List.mem_cons, List.mem_cons] at hc
      rcases hc with hc | rfl | rfl | hc
      · exact .inl (ha c hc)
      · simp [Text.numeral, hd]
      · exact .inr List.mem_cons_self
      · exact (ha' c hc).imp_right (List.mem_cons_of_mem _)
    · exact absurd hrest (by simp)

def cidrNet (s : Text) : Option WdCidr :=
  match scanSeparated ['.', '.', '.', '/'] (Text.cString s) with
  | some ([a, b, c, d, p], []) => some ⟨[a.toNat, b.toNat, c.toNat, d.toNat], p.toNat⟩
  | _ => none

theorem cString_eq_self {s : Text} (h : Char.ofNat 0 ∉ s) : Text.cString s = s := by
  refine Text.cString_eq_self fun c hc h0 => h ?_
  rw [← h0, Char.ofNat_toNat]
  exact hc

theorem cidrOk_split {s : Text} (h : cidrOk s = true) (hnul : Char.ofNat 0 ∉ s) :
    ∃ a d, s = a ++ [d] ∧ d.isDigit = true ∧
      ∀ c ∈ a, Text.numeral c = true ∨ c = '.' ∨ c = '/' := by
  unfold cidrOk at h
  rw [cString_eq_self hnul] at h
  split at h
  · rename_i hscan
    obtain ⟨a, d, hs, hd, ha⟩ := scanSeparated_split hscan
    refine ⟨a, d, hs, hd, fun c hc => (ha c hc).imp_right fun hsep => ?_⟩
    simpa using hsep
  · exact absurd h (by decide)

/-- A strict number is scanned as it is. -/
theorem scanULong_of_wdDecimal {width bound : ℕ} {s rest : Text} {n : ℕ}
    (h : wdDecimal width bound s = some (n, rest)) (hb : bound < 2 ^ 32) :
    Text.scanULong s = some (.ofNat n, rest) ∧ n ≤ bound := by
  have hfun : (fun c => decide (Text.digitValue c < 10)) = Char.isDigit := by
    funext c
    rw [Bool.eq_iff_iff, decide_eq_true_eq]
    exact Text.digitValue_lt_ten
  unfold wdDecimal at h
  dsimp only at h
  split at h
  · exact absurd h (by simp)
  · rename_i hno
    simp only [not_or] at hno
    obtain ⟨hne, -, hle, -⟩ := hno
    obtain ⟨rfl, rfl⟩ := Prod.mk.inj (Option.some.inj h)
    have hle' := Nat.not_lt.mp hle
    refine ⟨?_, hle'⟩
    cases s with
    | nil => exact absurd rfl hne
    | cons c s =>
      have hc : c.isDigit = true := by
        by_contra hc
        exact hne (List.takeWhile_cons_of_neg hc)
      have hscan : Text.scanNumber 10 (c :: s) =
          some (false, Text.ofDigits 10 ((c :: s).takeWhile Char.isDigit),
            (c :: s).drop ((c :: s).takeWhile Char.isDigit).length) := by
        have hbase : Text.prefixBase 10 (c :: s) = (10, c :: s) := rfl
        unfold Text.scanNumber Text.scanDigits
        rw [List.dropWhile_cons_of_neg (by simp [Text.not_isSpace_of_isDigit hc]),
          Text.sign_of_isDigit hc]
        dsimp only
        rw [hbase]
        dsimp only
        rw [hfun, if_neg hne]
        rfl
      unfold Text.scanULong
      rw [hscan]
      simp only [Option.map_some, Bool.false_eq_true, if_false]
      rw [if_neg (by omega)]

theorem scanSeparated_of_wdOctets {more : ℕ} {s rest : Text} {ns : List ℕ}
    (h : wdOctets more s = some (ns, rest)) :
    scanSeparated (List.replicate more '.') s = some (ns.map UInt32.ofNat, rest) ∧
      ns.length = more + 1 ∧ ∀ n ∈ ns, n ≤ 255 := by
  induction more generalizing s ns with
  | zero =>
    obtain ⟨⟨n, rest'⟩, hn, heq⟩ := Option.map_eq_some_iff.mp h
    obtain ⟨rfl, rfl⟩ := Prod.mk.inj heq
    obtain ⟨hscan, hle⟩ := scanULong_of_wdDecimal hn (by decide)
    refine ⟨?_, rfl, by simpa using hle⟩
    rw [List.replicate_zero, scanSeparated, hscan]
    rfl
  | succ more ih =>
    obtain ⟨⟨n, s'⟩, hn, hrest⟩ := Option.bind_eq_some_iff.mp h
    dsimp only at hrest
    split at hrest
    · rename_i hhead
      obtain ⟨⟨ms, rest'⟩, hms, heq⟩ := Option.map_eq_some_iff.mp hrest
      obtain ⟨rfl, rfl⟩ := Prod.mk.inj heq
      obtain ⟨hscan, hle⟩ := scanULong_of_wdDecimal hn (by decide)
      obtain ⟨hscan', hlen, hall⟩ := ih hms
      refine ⟨?_, by simp [hlen], List.forall_mem_cons.mpr ⟨hle, hall⟩⟩
      rw [List.replicate_succ, scanSeparated, hscan]
      simp only [Option.bind_some]
      rw [if_pos hhead, hscan']
      rfl
    · exact absurd hrest (by simp)

theorem exists_four {α : Type} {l : List α} (h : l.length = 4) : ∃ a b c d, l = [a, b, c, d] := by
  rcases l with _ | ⟨a, _ | ⟨b, _ | ⟨c, _ | ⟨d, _ | ⟨e, l⟩⟩⟩⟩⟩
  case cons.cons.cons.cons.nil => exact ⟨a, b, c, d, rfl⟩
  all_goals simp at h

/-- Where both take a net, they take it for the same. -/
theorem cidrNet_of_wdParseCidr {s : Text} {net : WdCidr} (h : wdParseCidr s = some net)
    (hok : cidrOk s = true) (hnul : Char.ofNat 0 ∉ s) : cidrNet s = some net := by
  have hseps : (['.', '.', '.', '/'] : List Char) = List.replicate 3 '.' ++ '/' :: [] := rfl
  have hback {n : ℕ} (hn : n ≤ 255) : (UInt32.ofNat n).toNat = n :=
    UInt32.toNat_ofNat_of_lt' (hn.trans_lt (by decide))
  unfold wdParseCidr at h
  split at h
  · exact absurd h (by simp)
  · unfold cidrOk at hok
    unfold cidrNet
    rw [cString_eq_self hnul] at hok ⊢
    rw [hseps, scanSeparated_append] at hok ⊢
    split at h
    · exact absurd h (by simp)
    · -- without a prefix the scan fails
      rename_i hoct
      rw [(scanSeparated_of_wdOctets hoct).1] at hok
      exact absurd hok (by simp)
    · rename_i ip c rest hoct
      obtain ⟨hscan, hlen, hall⟩ := scanSeparated_of_wdOctets hoct
      split at h
      · exact absurd h (by simp)
      · rename_i hc
        obtain rfl : c = '/' := not_not.mp hc
        split at h
        · rename_i p hp
          obtain rfl := Option.some.inj h
          obtain ⟨hscan', hle⟩ := scanULong_of_wdDecimal hp (by decide)
          obtain ⟨a, b, c, d, rfl⟩ := exists_four hlen
          rw [hscan]
          simp only [List.forall_mem_cons] at hall
          simp [scanSeparated, hscan', hback hall.1, hback hall.2.1, hback hall.2.2.1,
            hback hall.2.2.2.1, hback (hle.trans (by decide))]
        · exact absurd h (by simp)

def dotted (a b c d : UInt8) : Text :=
  Text.ofNat a.toNat ++ '.' :: (Text.ofNat b.toNat ++ '.' :: (Text.ofNat c.toNat ++
    '.' :: Text.ofNat d.toNat))

def IsIpv4 (s : Text) : Prop := ∃ a b c d, s = dotted a b c d

theorem wdDecimal_ofNat {width bound n : ℕ} (hn : n ≤ bound) (hw : (Text.ofNat n).length ≤ width)
    {rest : Text} (hrest : ∀ c, rest.head? = some c → c.isDigit = false) :
    wdDecimal width bound (Text.ofNat n ++ rest) = some (n, rest) := by
  have htake : (Text.ofNat n ++ rest).takeWhile Char.isDigit = Text.ofNat n := by
    have hnil : rest.takeWhile Char.isDigit = [] := by
      cases rest with
      | nil => rfl
      | cons c rest => exact List.takeWhile_cons_of_neg (by simp [hrest c rfl])
    rw [List.takeWhile_append_of_pos fun c hc => Text.isDigit_of_mem_ofNat hc, hnil, List.append_nil]
  have hzero : ¬ (1 < (Text.ofNat n).length ∧ (Text.ofNat n ++ rest).head? = some '0') := by
    rintro ⟨hlen, hhead⟩
    have hn0 : n ≠ 0 := by
      rintro rfl
      exact absurd hlen (by decide)
    obtain ⟨c, t, ht⟩ := List.exists_cons_of_ne_nil (Text.ofNat_ne_nil n)
    have hne := Text.head_ofNat hn0
    rw [ht] at hhead hne
    exact hne hhead
  unfold wdDecimal
  dsimp only
  rw [htake, Text.ofDigits_ofNat, if_neg, List.drop_left]
  rintro (h | h | h | h)
  · exact Text.ofNat_ne_nil n h
  · omega
  · omega
  · exact hzero h

theorem length_ofNat_le {n k : ℕ} (hk : 0 < k) (h : n < 10 ^ k) : (Text.ofNat n).length ≤ k :=
  (Nat.length_toDigits_le_iff (by decide) hk).mpr h

theorem wdOctet_ofNat (a : UInt8) {rest : Text} (hrest : ∀ c, rest.head? = some c → c.isDigit = false) :
    wdDecimal 3 255 (Text.ofNat a.toNat ++ rest) = some (a.toNat, rest) := by
  have hlt := a.toNat_lt
  exact wdDecimal_ofNat (by omega) (length_ofNat_le (by decide) (by omega)) hrest

theorem wdOctets_dotted (a b c d : UInt8) :
    wdOctets 3 (dotted a b c d) = some ([a.toNat, b.toNat, c.toNat, d.toNat], []) := by
  have hoct (x : UInt8) (t : Text) :
      wdDecimal 3 255 (Text.ofNat x.toNat ++ '.' :: t) = some (x.toNat, '.' :: t) := by
    refine wdOctet_ofNat x fun e he => ?_
    obtain rfl := Option.some.inj he
    decide
  have hlast : wdDecimal 3 255 (Text.ofNat d.toNat) = some (d.toNat, []) := by
    have hd : wdDecimal 3 255 (Text.ofNat d.toNat ++ []) = some (d.toNat, []) :=
      wdOctet_ofNat d (by simp)
    rwa [List.append_nil] at hd
  unfold dotted
  simp [wdOctets, hoct, hlast]

theorem length_dotted_le (a b c d : UInt8) : (dotted a b c d).length ≤ 15 := by
  have hlen (x : UInt8) : (Text.ofNat x.toNat).length ≤ 3 := by
    have hlt := x.toNat_lt
    exact length_ofNat_le (by decide) (by omega)
  have ha := hlen a
  have hb := hlen b
  have hc := hlen c
  have hd := hlen d
  unfold dotted
  simp only [List.length_append, List.length_cons]
  omega

theorem dotted_ne_nil (a b c d : UInt8) : dotted a b c d ≠ [] := by
  unfold dotted
  simp

theorem wdBindIp_dotted (a b c d : UInt8) :
    wdBindIp (dotted a b c d) = .ok [a.toNat, b.toNat, c.toNat, d.toNat] := by
  have hcidr : wdParseCidr (dotted a b c d) =
      some ⟨[a.toNat, b.toNat, c.toNat, d.toNat], 32⟩ := by
    have hlen := length_dotted_le a b c d
    unfold wdParseCidr
    rw [if_neg, wdOctets_dotted]
    rintro (h | h)
    · exact dotted_ne_nil a b c d h
    · omega
  unfold wdBindIp
  rw [hcidr]
  rfl

theorem dotted_chars (a b c d : UInt8) : ∀ ch ∈ dotted a b c d, ch.isDigit = true ∨ ch = '.' := by
  intro ch hch
  unfold dotted at hch
  simp only [List.mem_append, List.mem_cons] at hch
  rcases hch with h | rfl | h | rfl | h | rfl | h
  all_goals first | exact .inr rfl | exact .inl (Text.isDigit_of_mem_ofNat h)

theorem solid_dotted (a b c d : UInt8) : Solid (dotted a b c d) := by
  refine solid_of_all (p := fun ch => ch.isDigit || ch = '.') (by decide) fun ch hch => ?_
  simpa using dotted_chars a b c d ch hch

theorem wdValidHostname_dotted (a b c d : UInt8) : wdValidHostname (dotted a b c d) = true := by
  have hlen := length_dotted_le a b c d
  have hhead : ∀ e, (dotted a b c d).head? = some e → e.isDigit = true := by
    intro e he
    obtain ⟨x, t, ht⟩ := List.exists_cons_of_ne_nil (Text.ofNat_ne_nil a.toNat)
    unfold dotted at he
    rw [ht] at he
    obtain rfl := Option.some.inj he
    exact Text.isDigit_of_mem_ofNat (n := a.toNat) (ht ▸ List.mem_cons_self)
  have hlast : ∀ e, (dotted a b c d).getLast? = some e → e.isDigit = true := by
    intro e he
    have hlast := List.getLast?_eq_some_getLast (Text.ofNat_ne_nil d.toNat)
    unfold dotted at he
    simp only [List.getLast?_append, List.getLast?_cons, hlast] at he
    obtain rfl : (Text.ofNat d.toNat).getLast (Text.ofNat_ne_nil _) = e := by simpa using he
    exact Text.isDigit_of_mem_ofNat (List.getLast_mem _)
  have hdigit {e : Char} (he : e.isDigit = true) : e ≠ '-' ∧ e ≠ '.' := by
    refine ⟨?_, ?_⟩
    all_goals
      rintro rfl
      exact absurd he (by decide)
  have hall : (dotted a b c d).all hostChar = true := by
    rw [List.all_eq_true]
    intro e he
    rcases dotted_chars a b c d e he with he | rfl
    · simp [hostChar, Char.isAlphanum, he]
    · decide
  unfold wdValidHostname
  simp only [Bool.and_eq_true, decide_eq_true_eq, hall, and_true]
  refine ⟨⟨⟨⟨dotted_ne_nil a b c d, by omega⟩, ?_⟩, ?_⟩, ?_⟩
  · exact fun h => (hdigit (hhead _ h)).1 rfl
  · exact fun h => (hdigit (hhead _ h)).2 rfl
  · exact fun h => (hdigit (hlast _ h)).2 rfl

theorem splitCsv_cons_filler {a : Char} (ha : isFiller a = true) (s : Text) :
    splitCsv (a :: s) = splitCsv s := by
  have hcomma : a ≠ ',' := by
    rintro rfl
    exact absurd ha (by decide)
  have htrim (l : Text) : trimFiller (a :: l) = trimFiller l := by
    unfold trimFiller
    rw [List.dropWhile_cons_of_pos ha]
  unfold splitCsv
  rw [split, if_neg hcomma]
  split
  · rename_i heq
    rw [heq, List.map_cons, List.map_cons, htrim]
  · rename_i heq
    have hnil : trimFiller [a] = [] := htrim []
    rw [heq]
    simp [hnil]

theorem splitCsv_dropWhile (s : Text) : splitCsv (s.dropWhile isFiller) = splitCsv s := by
  induction s with
  | nil => rfl
  | cons a s ih =>
    by_cases ha : isFiller a = true
    · rw [List.dropWhile_cons_of_pos ha, ih, splitCsv_cons_filler ha]
    · rw [List.dropWhile_cons_of_neg ha]

/-- A character at the end belongs to the last piece, or is one. -/
theorem split_concat {a : Char} (ha : a ≠ ',') (s : Text) :
    split ',' (s ++ [a]) = split ',' s ++ [[a]] ∨
      ∃ ls l, split ',' s = ls ++ [l] ∧ split ',' (s ++ [a]) = ls ++ [l ++ [a]] := by
  induction s with
  | nil => exact .inl (by simp [split, ha])
  | cons b s ih =>
    rw [List.cons_append, split, split]
    by_cases hb : b = ','
    · rw [if_pos hb, if_pos hb]
      rcases ih with h | ⟨ls, l, h, h'⟩
      · exact .inl (by rw [h]; rfl)
      · exact .inr ⟨[] :: ls, l, by rw [h]; rfl, by rw [h']; rfl⟩
    · rw [if_neg hb, if_neg hb]
      rcases ih with h | ⟨ls, l, h, h'⟩
      · rw [h]
        cases split ',' s with
        | nil => exact .inr ⟨[], [b], rfl, rfl⟩
        | cons p ps => exact .inl rfl
      · rw [h, h']
        cases ls with
        | nil => exact .inr ⟨[], b :: l, rfl, rfl⟩
        | cons p ps => exact .inr ⟨(b :: p) :: ps, l, rfl, rfl⟩

theorem mem_splitCsv {tok s : Text} :
    tok ∈ splitCsv s ↔ tok ≠ [] ∧ ∃ piece ∈ split ',' s, trimFiller piece = tok := by
  unfold splitCsv
  rw [List.mem_filter, List.mem_map, decide_eq_true_eq, and_comm]

theorem splitCsv_rdropWhile (s : Text) : splitCsv (s.rdropWhile isFiller) = splitCsv s := by
  induction s using List.reverseRecOn with
  | nil => rfl
  | append_singleton s a ih =>
    by_cases ha : isFiller a = true
    · have hcomma : a ≠ ',' := by
        rintro rfl
        exact absurd ha (by decide)
      have htrim (l : Text) : trimFiller (l ++ [a]) = trimFiller l := Text.strip_append_singleton ha l
      rw [List.rdropWhile_concat_pos _ _ _ ha, ih]
      unfold splitCsv
      rcases split_concat hcomma s with h | ⟨ls, l, h, h'⟩
      · have hnil : trimFiller [a] = [] := htrim []
        rw [h]
        simp [hnil]
      · rw [h, h']
        simp [htrim]
    · rw [List.rdropWhile_concat_neg _ _ _ ha]

/-- The daemon takes off a carriage return at the end, but no entry ends with one. -/
theorem splitCsv_wdTrim {s : Text} (h : ∀ tok ∈ splitCsv s, tok.getLast? ≠ some '\r') :
    splitCsv (wdTrim s) = splitCsv s := by
  have hend (u : Text) (hu : (u.rdropWhile isFiller).getLast? ≠ some '\r') :
      u.rdropWhile (fun c => isFiller c || c = '\r') = u.rdropWhile isFiller := by
    induction u using List.reverseRecOn with
    | nil => rfl
    | append_singleton u a ih =>
      by_cases ha : isFiller a = true
      · rw [List.rdropWhile_concat_pos _ _ _ ha] at hu ⊢
        rw [List.rdropWhile_concat_pos _ _ _ (by simp [ha])]
        exact ih hu
      · rw [List.rdropWhile_concat_neg _ _ _ ha] at hu ⊢
        have hcr : a ≠ '\r' := by simpa using hu
        rw [List.rdropWhile_concat_neg _ _ _ (by simp [ha, hcr])]
  unfold wdTrim
  rw [hend, splitCsv_rdropWhile, splitCsv_dropWhile]
  intro hlast
  obtain ⟨u, hu⟩ := List.getLast?_eq_some_iff.mp hlast
  have hsplit : splitCsv (u ++ ['\r']) = splitCsv s := by
    rw [← hu, splitCsv_rdropWhile, splitCsv_dropWhile]
  have htrim (l : Text) : trimFiller (l ++ ['\r']) = l.dropWhile isFiller ++ ['\r'] :=
    Text.strip_append_cons (by decide) (by decide) l []
  have hpiece : ∃ l, l ++ ['\r'] ∈ split ',' (u ++ ['\r']) := by
    rcases split_concat (a := '\r') (by decide) u with h' | ⟨ls, l, -, h'⟩
    · exact ⟨[], by rw [h']; simp⟩
    · exact ⟨l, by rw [h']; simp⟩
  obtain ⟨l, hl⟩ := hpiece
  refine h (l.dropWhile isFiller ++ ['\r']) ?_ (by simp)
  rw [← hsplit, mem_splitCsv]
  exact ⟨by simp, _, hl, htrim l⟩

theorem not_mem_of_mem_splitCsv {c : Char} {s tok : Text} (hc : c ∉ s) (h : tok ∈ splitCsv s) :
    c ∉ tok := by
  obtain ⟨-, piece, hpiece, rfl⟩ := mem_splitCsv.mp h
  intro hmem
  have hpiece' : c ∈ piece :=
    (((List.rdropWhile_prefix _ _).sublist.trans (List.dropWhile_suffix _).sublist)).subset hmem
  exact hc (mem_of_mem_split hpiece hpiece')

/-- A net that passes ends with a digit. -/
theorem splitCsv_wdTrim_of_cidrOk {s : Text} (h : ∀ tok ∈ splitCsv s, cidrOk tok = true)
    (hnul : Char.ofNat 0 ∉ s) : splitCsv (wdTrim s) = splitCsv s := by
  refine splitCsv_wdTrim fun tok htok hlast => ?_
  obtain ⟨a, d, rfl, hd, -⟩ := cidrOk_split (h tok htok) (not_mem_of_mem_splitCsv hnul htok)
  obtain rfl : d = '\r' := by simpa using hlast
  exact absurd hd (by decide)

theorem cidrCount_ok {toks : List Text} {n m : ℕ} (h : cidrCount n toks = .ok m) :
    (∀ tok ∈ (toks.map trimFiller).filter (· ≠ []), cidrOk tok = true) ∧
      m = n + ((toks.map trimFiller).filter (· ≠ [])).length ∧ (m = n ∨ m ≤ 4) := by
  induction toks generalizing n with
  | nil =>
    obtain rfl := Except.ok.inj h
    simp
  | cons tok toks ih =>
    unfold cidrCount at h
    dsimp only at h
    split at h
    · rename_i hnil
      simpa [hnil] using ih h
    · rename_i hne
      split at h
      · exact absurd h (by simp)
      · rename_i hok
        split at h
        · exact absurd h (by simp)
        · rename_i hle
          obtain ⟨hall, hm, hm'⟩ := ih h
          have hok' : cidrOk (trimFiller tok) = true := by simpa using hok
          rw [List.map_cons, List.filter_cons_of_pos (by simpa using hne), List.length_cons]
          exact ⟨List.forall_mem_cons.mpr ⟨hok', hall⟩, by omega, by omega⟩

/-- The lists that pass hold one to four nets. -/
theorem cidrListCheck_ok {s : Text} (h : cidrListCheck s = .ok ()) :
    (∀ tok ∈ splitCsv s, cidrOk tok = true) ∧ splitCsv s ≠ [] ∧ (splitCsv s).length ≤ 4 := by
  unfold cidrListCheck at h
  obtain ⟨n, hn, hpos⟩ := except_bind_eq_ok.mp h
  rw [ensure_eq_ok, decide_eq_true_eq] at hpos
  obtain ⟨hall, hlen, hle⟩ := cidrCount_ok hn
  have hlen' : n = (splitCsv s).length := by simpa [splitCsv] using hlen
  exact ⟨hall, List.ne_nil_of_length_pos (by omega), by omega⟩

theorem wdNet_foldlM {toks : List Text} {out : List WdCidr}
    (hall : ∀ tok ∈ (toks.map trimFiller).filter (· ≠ []), (wdParseCidr tok).isSome = true)
    (hlen : out.length + ((toks.map trimFiller).filter (· ≠ [])).length ≤ 4) :
    toks.foldlM wdNet out =
      .ok (out ++ ((toks.map trimFiller).filter (· ≠ [])).filterMap wdParseCidr) := by
  induction toks generalizing out with
  | nil => simp [pure, Except.pure]
  | cons tok toks ih =>
    rw [List.foldlM_cons]
    unfold wdNet
    dsimp only
    by_cases hnil : trimFiller tok = []
    · rw [if_pos hnil]
      rw [List.map_cons, List.filter_cons_of_neg (by simp [hnil])] at hall hlen ⊢
      exact ih hall hlen
    · rw [List.map_cons, List.filter_cons_of_pos (by simpa using hnil)] at hall hlen ⊢
      rw [List.length_cons] at hlen
      obtain ⟨net, hnet⟩ := Option.isSome_iff_exists.mp (hall _ List.mem_cons_self)
      rw [if_neg hnil, if_neg (by omega), hnet, List.filterMap_cons_some hnet]
      have hrest := @ih (out ++ [net]) (fun t ht => hall t (List.mem_cons_of_mem _ ht))
        (by rw [List.length_append]; simp only [List.length_singleton]; omega)
      rw [List.append_assoc] at hrest
      exact hrest

theorem wdRemoteSubnet_ok {s : Text} (hall : ∀ tok ∈ splitCsv s, (wdParseCidr tok).isSome = true)
    (hne : splitCsv s ≠ []) (hlen : (splitCsv s).length ≤ 4) :
    wdRemoteSubnet s = .ok ((splitCsv s).filterMap wdParseCidr) := by
  have hfold : (split ',' s).foldlM wdNet [] = .ok ([] ++ (splitCsv s).filterMap wdParseCidr) :=
    wdNet_foldlM hall (by simpa [splitCsv] using hlen)
  have hnets : (splitCsv s).filterMap wdParseCidr ≠ [] := by
    obtain ⟨tok, toks, htoks⟩ := List.exists_cons_of_ne_nil hne
    obtain ⟨net, hnet⟩ := Option.isSome_iff_exists.mp (hall tok (htoks ▸ List.mem_cons_self))
    rw [htoks, List.filterMap_cons_some hnet]
    exact List.cons_ne_nil _ _
  unfold wdRemoteSubnet
  rw [hfold]
  exact if_neg hnets

/-- An entry that is not strict is refused wherever it stands. -/
theorem wdRemoteSubnet_error {s tok : Text} (htok : tok ∈ splitCsv s)
    (hnone : wdParseCidr tok = none) : ∃ e, wdRemoteSubnet s = .error e := by
  obtain ⟨hne, piece, hpiece, htrim⟩ := mem_splitCsv.mp htok
  have hbad (out : List WdCidr) : ∃ e, wdNet out piece = .error e := by
    unfold wdNet
    dsimp only
    rw [htrim, if_neg hne, hnone]
    split
    · exact ⟨_, rfl⟩
    · exact ⟨_, rfl⟩
  obtain ⟨e, he⟩ := foldlM_error hpiece hbad []
  exact ⟨e, by unfold wdRemoteSubnet; rw [he]; rfl⟩

/-- What the configuration means by its list of remote nets. -/
def remoteNets (s : Text) : List WdCidr := (splitCsv s).filterMap cidrNet

end Machino.Ipsec
