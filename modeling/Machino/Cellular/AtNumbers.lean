import Mathlib.Data.List.Infix
import Mathlib.Tactic.Ring
import Machino.Cellular.AtFraming
import Machino.Cellular.RadioTuner

namespace Machino.Cellular

/-- What begins with a sign that stays is not cut. -/
theorem infix_dropWhile {p : Char → Bool} {c : Char} {t l : Text} (hc : p c = false)
    (h : c :: t <:+: l) : c :: t <:+: l.dropWhile p := by
  obtain ⟨a, b, rfl⟩ := h
  rw [List.append_assoc, List.dropWhile_append]
  split_ifs
  · rw [List.cons_append, List.dropWhile_cons_of_neg (by simp [hc])]
    exact ⟨[], b, rfl⟩
  · exact ⟨a.dropWhile p, b, List.append_assoc _ _ _⟩

/-- What has no blank at either end is not cut by trimming. -/
theorem infix_trim {c d : Char} {t u l : Text} (hc : isBlank c = false) (hd : isBlank d = false)
    (hword : c :: t = u ++ [d]) : c :: t <:+: trim l ↔ c :: t <:+: l := by
  constructor
  · intro h
    exact h.trans ((trim_starts l).isInfix.trans (List.dropWhile_suffix _).isInfix)
  · intro h
    have hstart := infix_dropWhile hc h
    rw [hword, ← List.reverse_infix, List.reverse_append] at hstart
    have hend := infix_dropWhile hd hstart
    unfold trim
    rw [← List.reverse_infix, List.reverse_reverse, hword, List.reverse_append]
    exact hend

theorem infix_iff_exists_rawLine {word s : Text} (hword : '\n' ∉ word) :
    word <:+: s ↔ ∃ l ∈ rawLines s, word <:+: l := by
  constructor
  · rintro ⟨a, b, rfl⟩
    obtain ⟨l, ls, hb⟩ := List.exists_cons_of_ne_nil (rawLines_ne_nil b)
    have hrest : rawLines (word ++ b) = (word ++ l) :: ls := by
      rw [rawLines_append, hb]
      unfold openLine rawLines
      rw [List.splitOn_eq_singleton hword]
      rfl
    have hlines : rawLines (a ++ word ++ b) =
        (rawLines a).dropLast ++ (openLine a ++ (word ++ l)) :: ls := by
      rw [List.append_assoc, rawLines_append, hrest]
      rfl
    refine ⟨openLine a ++ (word ++ l), ?_, openLine a, l, List.append_assoc _ _ _⟩
    rw [hlines]
    exact List.mem_append_right _ List.mem_cons_self
  · rintro ⟨l, hl, hin⟩
    have hwhole : l <:+: ['\n'].intercalate (rawLines s) :=
      Text.infix_intercalate hl
    rw [rawLines, List.intercalate_splitOn] at hwhole
    exact hin.trans hwhole

def ready : Text := "READY".toList

/-- A `+CPIN:` line with this value. -/
def IsReadyLine (l : Text) : Prop := "+CPIN:".toList <+: l ∧ trim (l.drop 6) = ready

instance (l : Text) : Decidable (IsReadyLine l) := instDecidableAnd

theorem ready_infix_iff (raw : Text) :
    Text.contains raw "READY" = true ↔ ∃ l ∈ linesOf raw, ready <:+: l := by
  rw [Text.contains, Text.find_isSome_iff]
  refine (infix_iff_exists_rawLine (by decide)).trans ?_
  have htrim (l : Text) : ready <:+: trim l ↔ ready <:+: l :=
    infix_trim (t := "EADY".toList) (u := "READ".toList) (d := 'Y') rfl rfl rfl
  constructor
  · rintro ⟨l, hl, hin⟩
    exact ⟨trim l, List.mem_map_of_mem hl, (htrim l).mpr hin⟩
  · rintro ⟨_, hl, hin⟩
    obtain ⟨l, hraw, rfl⟩ := List.mem_map.mp hl
    exact ⟨l, hraw, (htrim l).mp hin⟩

theorem parseCpin_eq_ready (raw : Text) :
    parseCpin raw = .ready ↔ ∃ l ∈ linesOf raw, ready <:+: l := by
  rw [← ready_infix_iff]
  unfold parseCpin
  split_ifs with h <;> simp [h]

/-- A card is taken for unlocked on a `READY` line only, unless no such line is there and another
line holds the word. -/
theorem parseCpin_ready_iff (raw : Text) :
    (parseCpin raw = .ready → ∃ l ∈ linesOf raw, IsReadyLine l) ↔
      (∃ l ∈ linesOf raw, IsReadyLine l) ∨ ∀ l ∈ linesOf raw, ¬ ready <:+: l := by
  rw [parseCpin_eq_ready]
  constructor
  · intro h
    by_cases hword : ∃ l ∈ linesOf raw, ready <:+: l
    · exact .inl (h hword)
    · exact .inr fun l hl hin => hword ⟨l, hl, hin⟩
  · rintro (hline | hnone) ⟨l, hl, hin⟩
    · exact hline
    · exact absurd hin (hnone l hl)

/-- No line has the value. -/
theorem not_ready_only : ¬ (parseCpin "+CPIN: NOT READY\r\nOK\r\n".toList = .ready →
    ∃ l ∈ linesOf "+CPIN: NOT READY\r\nOK\r\n".toList, IsReadyLine l) := by
  intro h
  exact absurd (h (by decide)) (by decide)

/-- The first number in a text. The accumulator is an `int`, which wraps. -/
def leadingFrom (n : ℤ) (any : Bool) : Text → Option ℤ
  | [] => if any then some n else none
  | c :: s =>
    if c.isDigit then leadingFrom ((n * 10 + (c.toNat - 48 : ℕ)).bmod (2 ^ 32)) true s
    else if any then some n
    else leadingFrom n any s

def leadingNumber (s : Text) : Option ℤ := leadingFrom 0 false s

structure SignalInfo where
  csq : Option ℤ := none
  rssiDbm : Option ℤ := none

/-- 99 is no value, and what is beyond the range is none either. -/
def parseCsq (raw : Text) : SignalInfo :=
  let body := atExtract raw "+CSQ:"
  if body = [] then {}
  else
    match asInt (csvField body 0) with
    | none => {}
    | some v =>
      if v = 99 ∨ v < 0 ∨ 31 < v then {} else { csq := some v, rssiDbm := some (-113 + 2 * v) }

structure OperatorInfo where
  name : Text := []
  act : Option ℤ := none

def parseCops (raw : Text) : OperatorInfo :=
  let body := atExtract raw "+COPS:"
  if body = [] then {} else { name := csvField body 2, act := asInt (csvField body 3) }

structure NwInfo where
  rat : Text := []
  operCode : Text := []
  band : Text := []
  channel : Option ℤ := none

def parseQnwinfo (raw : Text) : NwInfo :=
  let body := atExtract raw "+QNWINFO:"
  if body = [] then {}
  else
    { rat := csvField body 0, operCode := csvField body 1, band := csvField body 2,
      channel := asInt (csvField body 3) }

/-- Zero for a band that is not one of the modem's. -/
def lteBandMhz (band : ℤ) : ℤ := ((lteBandByNumber band).map fun b => b.mhz).getD 0

/-- All that the answer says of the serving cell, with what the tuner measures. -/
structure ServingCellInfo extends ServingCell where
  state : Text := []
  rat : Text := []
  mcc : Text := []
  mnc : Text := []
  cellId : Text := []
  tac : Text := []
  pci : Option ℤ := none
  earfcn : Option ℤ := none
  bandMhz : Option ℤ := none
  rssi : Option ℤ := none

def parseQengServingcell (raw : Text) : ServingCellInfo :=
  let body := atExtract raw "+QENG:"
  if body = [] then {}
  else if csvField body 0 ≠ "servingcell".toList then {}
  else
    let band := leadingNumber (csvField body 9)
    { state := csvField body 1
      rat := csvField body 2
      mcc := csvField body 4
      mnc := csvField body 5
      cellId := csvField body 6
      pci := asInt (csvField body 7)
      earfcn := asInt (csvField body 8)
      band := band
      tac := csvField body 12
      rsrp := asInt (csvField body 13)
      rsrq := asInt (csvField body 14)
      rssi := asInt (csvField body 15)
      sinr := asInt (csvField body 16)
      bandMhz := (band.map lteBandMhz).filter (· ≠ 0) }

structure NeighbourCell where
  kind : Text := []
  rat : Text := []
  earfcn : Option ℤ := none
  pci : Option ℤ := none
  rsrq : Option ℤ := none
  rsrp : Option ℤ := none
  rssi : Option ℤ := none
  sinr : Option ℤ := none

/-- The fields of a line about a neighbouring cell. -/
def neighbourBody (l : Text) : Option Text :=
  if "+QENG:".toList.isPrefixOf l then
    let body := trim (l.drop 6)
    if "neighbourcell".toList.isPrefixOf (csvField body 0) then some body else none
  else none

/-- A GSM cell has its station code where another has its number, and it is not read. -/
def neighbourCell (body : Text) : NeighbourCell :=
  let what := csvField body 0
  let kind :=
    if Text.contains what "intra" then "intra".toList
    else if Text.contains what "inter" then "inter".toList
    else []
  let rat := csvField body 1
  let earfcn := asInt (csvField body 2)
  if rat = "LTE".toList then
    { kind := kind, rat := rat, earfcn := earfcn
      pci := asInt (csvField body 3)
      rsrq := asInt (csvField body 4)
      rsrp := asInt (csvField body 5)
      rssi := asInt (csvField body 6)
      sinr := asInt (csvField body 7) }
  else { kind := kind, rat := rat, earfcn := earfcn, rssi := asInt (csvField body 4) }

/-- The lines of an answer that are about neighbouring cells. -/
def neighbourBodies (raw : Text) : List Text := (linesOf raw).filterMap neighbourBody

def parseQengNeighbours (raw : Text) : List NeighbourCell := (neighbourBodies raw).map neighbourCell

/-- What stands behind a sign. -/
def unsigned : Text → Text
  | '-' :: t | '+' :: t => t
  | t => t

/-- The number that a field denotes, however many digits it has. -/
def decimal (field : Text) : Option ℤ :=
  let s := trim field
  let digits := unsigned s
  if digits = [] then none
  else if !digits.all Char.isDigit then none
  else
    let n : ℤ := Nat.ofDigitChars 10 digits 0
    some (if s.head? = some '-' then -n else n)

/-- The next number of the range of an `int`. -/
def clamp (n : ℤ) : ℤ := max (-2147483648) (min n 2147483647)

theorem clamp_eq_self {n : ℤ} : clamp n = n ↔ -2147483648 ≤ n ∧ n ≤ 2147483647 := by
  unfold clamp
  omega

theorem asInt_eq (field : Text) : asInt field = (decimal field).map clamp := by
  have hcode : asInt field =
      if unsigned (trim field) = [] then none
      else if !(unsigned (trim field)).all Char.isDigit then none
      else
        let n : ℤ := Nat.ofDigitChars 10 (unsigned (trim field)) 0
        some (if (trim field).head? = some '-' then max (-n) (-2147483648) else min n 2147483647) :=
    rfl
  rw [hcode]
  unfold decimal clamp
  dsimp only
  generalize unsigned (trim field) = digits
  split_ifs with hnil hall hsign
  · rfl
  · rfl
  · rw [Option.map_some]
    congr 1
    omega
  · rw [Option.map_some]
    congr 1
    omega

/-- A field that is no number, or one of the range of an `int`. -/
def FitsInt (field : Text) : Prop :=
  ∀ n, decimal field = some n → -2147483648 ≤ n ∧ n ≤ 2147483647

theorem decimal_nil : decimal [] = none := rfl

theorem fitsInt_nil : FitsInt [] := by
  intro n h
  exact absurd h (by simp [decimal_nil])

/-- A field of an answer, beside the number that a parser reports for it. -/
structure Reading where
  field : Text
  reported : Option ℤ

def Reading.Exact (r : Reading) : Prop := r.reported = none ∨ r.reported = decimal r.field

/-- What `as_int` alone decides is right exactly for the numbers an `int` holds. -/
theorem exact_asInt_iff (field : Text) :
    (Reading.mk field (asInt field)).Exact ↔ FitsInt field := by
  unfold Reading.Exact FitsInt
  rw [asInt_eq]
  cases decimal field with
  | none => simp
  | some n =>
    rw [Option.map_some]
    simp only [reduceCtorEq, false_or, Option.some.injEq, forall_eq', clamp_eq_self]

/-- A number strictly inside the range has not been clamped. -/
theorem decimal_of_asInt {field : Text} {v : ℤ} (h : asInt field = some v)
    (hlo : -2147483648 < v) (hhi : v < 2147483647) : decimal field = some v := by
  rw [asInt_eq, Option.map_eq_some_iff] at h
  obtain ⟨n, hn, rfl⟩ := h
  rw [hn, Option.some.injEq]
  unfold clamp at *
  omega

/-- The digits that stand together first. -/
def firstDigits (s : Text) : Text := (s.dropWhile fun c => !c.isDigit).takeWhile Char.isDigit

def firstNumber (s : Text) : Option ℤ :=
  if firstDigits s = [] then none else some (Nat.ofDigitChars 10 (firstDigits s) 0)

/-- What the accumulator should hold before and behind each digit. -/
def accumulated (digits : Text) : List ℕ := digits.inits.map fun ds => Nat.ofDigitChars 10 ds 0

theorem leadingFrom_true {s : Text} {m : ℕ} :
    leadingFrom ((m : ℤ).bmod (2 ^ 32)) true s =
      some ((Nat.ofDigitChars 10 (s.takeWhile Char.isDigit) m : ℤ).bmod (2 ^ 32)) := by
  induction s generalizing m with
  | nil => rfl
  | cons c s ih =>
    unfold leadingFrom
    by_cases hc : c.isDigit = true
    · have hstep : ((m : ℤ).bmod (2 ^ 32) * 10 + (c.toNat - 48 : ℕ)).bmod (2 ^ 32) =
          ((10 * m + (c.toNat - '0'.toNat) : ℕ) : ℤ).bmod (2 ^ 32) := by
        rw [← Int.bmod_add_bmod, Int.bmod_mul_bmod, Int.bmod_add_bmod]
        congr 1
        push_cast
        ring
      rw [if_pos hc, hstep, ih, List.takeWhile_cons_of_pos hc, Nat.ofDigitChars_cons]
    · rw [if_neg hc, if_pos rfl, List.takeWhile_cons_of_neg hc]
      rfl

theorem leadingNumber_eq (s : Text) :
    leadingNumber s = (firstNumber s).map fun n => n.bmod (2 ^ 32) := by
  unfold leadingNumber firstNumber firstDigits
  induction s with
  | nil => rfl
  | cons c s ih =>
    unfold leadingFrom
    by_cases hc : c.isDigit = true
    · rw [if_pos hc, List.dropWhile_cons_of_neg (by simp [hc]), List.takeWhile_cons_of_pos hc,
        if_neg (List.cons_ne_nil _ _), Option.map_some, Nat.ofDigitChars_cons]
      have hfirst : ((0 : ℤ) * 10 + (c.toNat - 48 : ℕ)) =
          ((10 * 0 + (c.toNat - '0'.toNat) : ℕ) : ℤ) := by
        push_cast
        ring
      rw [hfirst]
      exact leadingFrom_true
    · rw [if_neg hc, if_neg Bool.false_ne_true, ih, List.dropWhile_cons_of_pos (by simp [hc])]

theorem ofDigitChars_le_append (ds es : Text) (m : ℕ) :
    Nat.ofDigitChars 10 ds m ≤ Nat.ofDigitChars 10 (ds ++ es) m := by
  rw [Nat.ofDigitChars_append, Nat.ofDigitChars_eq_ofDigitChars_zero (l := es)]
  have hpow : 1 ≤ 10 ^ es.length := Nat.one_le_pow _ _ (by omega)
  exact (Nat.le_mul_of_pos_left _ hpow).trans (Nat.le_add_right _ _)

/-- The accumulator only grows, so that the last value decides. -/
theorem accumulated_lt_iff {digits : Text} {b : ℕ} :
    (∀ n ∈ accumulated digits, n < b) ↔ Nat.ofDigitChars 10 digits 0 < b := by
  unfold accumulated
  rw [List.forall_mem_map]
  constructor
  · intro h
    exact h digits ((List.mem_inits _ _).mpr (List.prefix_refl _))
  · intro h ds hds
    obtain ⟨es, rfl⟩ := (List.mem_inits _ _).mp hds
    exact (ofDigitChars_le_append ds es 0).trans_lt h

theorem bmod_eq_self_iff {n : ℕ} : (n : ℤ).bmod (2 ^ 32) = n ↔ n < 2 ^ 31 := by
  constructor
  · intro h
    have hlt : (n : ℤ).bmod (2 ^ 32) < ((2 ^ 32 : ℕ) + 1) / 2 := Int.bmod_lt (by omega)
    omega
  · intro h
    exact Int.bmod_eq_of_le (by omega) (by omega)

/-- The accumulated number is right exactly for what an `int` holds. -/
theorem leadingNumber_exact_iff (s : Text) :
    leadingNumber s = none ∨ leadingNumber s = firstNumber s ↔
      Nat.ofDigitChars 10 (firstDigits s) 0 < 2 ^ 31 := by
  rw [leadingNumber_eq]
  unfold firstNumber
  split_ifs with h
  · rw [h]
    simp
  · simp only [Option.map_some, reduceCtorEq, false_or, Option.some.injEq]
    exact bmod_eq_self_iff

/-- The code of a registration. -/
def regCode : RegState → Option ℤ
  | .unknown => none
  | .notRegistered => some 0
  | .registeredHome => some 1
  | .searching => some 2
  | .denied => some 3
  | .registeredRoaming => some 5

def csqReading (raw : Text) : Reading :=
  ⟨csvField (atExtract raw "+CSQ:") 0, (parseCsq raw).csq⟩

def ceregReading (raw : Text) : Reading :=
  ⟨csvField (atExtract raw "+CEREG:") 1, regCode (parseCereg raw)⟩

def clckReading (raw : Text) : Reading :=
  ⟨csvField (atExtract raw "+CLCK:") 0, parseClck raw⟩

def copsReading (raw : Text) : Reading :=
  ⟨csvField (atExtract raw "+COPS:") 3, (parseCops raw).act⟩

def qnwinfoReading (raw : Text) : Reading :=
  ⟨csvField (atExtract raw "+QNWINFO:") 3, (parseQnwinfo raw).channel⟩

def qcfgReading (raw : Text) (name : String) : Reading :=
  ⟨csvField (atExtract raw "+QCFG:") 1, parseQcfgInt raw name⟩

def qpincReadings (raw : Text) : List Reading :=
  let body := atExtract raw "+QPINC:"
  let c := parseQpinc raw
  [⟨csvField body 1, c.pinLeft⟩, ⟨csvField body 2, c.pukLeft⟩]

def servingReadings (raw : Text) : List Reading :=
  let body := atExtract raw "+QENG:"
  let c := parseQengServingcell raw
  [⟨csvField body 7, c.pci⟩, ⟨csvField body 8, c.earfcn⟩, ⟨csvField body 13, c.rsrp⟩,
    ⟨csvField body 14, c.rsrq⟩, ⟨csvField body 15, c.rssi⟩, ⟨csvField body 16, c.sinr⟩]

/-- The signal fields stand elsewhere for a GSM cell. -/
def neighbourReadings (body : Text) : List Reading :=
  let c := neighbourCell body
  ⟨csvField body 2, c.earfcn⟩ ::
    if csvField body 1 = "LTE".toList then
      [⟨csvField body 3, c.pci⟩, ⟨csvField body 4, c.rsrq⟩, ⟨csvField body 5, c.rsrp⟩,
        ⟨csvField body 6, c.rssi⟩, ⟨csvField body 7, c.sinr⟩]
    else [⟨csvField body 4, c.rssi⟩]

/-- Every field of an answer that a parser reports as a number, but for the band. -/
def readings (raw : Text) (name : String) : List Reading :=
  csqReading raw :: ceregReading raw :: clckReading raw :: copsReading raw ::
    qnwinfoReading raw :: qcfgReading raw name :: qpincReadings raw ++ servingReadings raw ++
    (neighbourBodies raw).flatMap neighbourReadings

def BandExact (raw : Text) : Prop :=
  (parseQengServingcell raw).band = none ∨
    (parseQengServingcell raw).band = firstNumber (csvField (atExtract raw "+QENG:") 9)

def qcfgFields (raw : Text) (name : String) : List Text :=
  let body := atExtract raw "+QCFG:"
  if csvField body 0 = name.toList then [csvField body 1] else []

def qpincFields (raw : Text) : List Text :=
  let body := atExtract raw "+QPINC:"
  if csvField body 0 = "SC".toList then [csvField body 1, csvField body 2] else []

def isServing (raw : Text) : Bool :=
  csvField (atExtract raw "+QENG:") 0 = "servingcell".toList

def servingFields (raw : Text) : List Text :=
  if isServing raw then [7, 8, 13, 14, 15, 16].map (csvField (atExtract raw "+QENG:")) else []

def neighbourFields (body : Text) : List Text :=
  (if csvField body 1 = "LTE".toList then [2, 3, 4, 5, 6, 7] else [2, 4]).map (csvField body)

def plainFields (raw : Text) (name : String) : List Text :=
  csvField (atExtract raw "+COPS:") 3 :: csvField (atExtract raw "+QNWINFO:") 3 ::
    qcfgFields raw name ++ qpincFields raw ++ servingFields raw ++
    (neighbourBodies raw).flatMap neighbourFields

/-- The digits of the band, where an answer is about the serving cell. -/
def bandDigits (raw : Text) : Text :=
  if isServing raw then firstDigits (csvField (atExtract raw "+QENG:") 9) else []

theorem csvField_nil (i : ℕ) : csvField [] i = [] := by
  unfold csvField csvFieldFrom
  split_ifs
  · rfl
  · rfl

theorem csqReading_exact (raw : Text) : (csqReading raw).Exact := by
  unfold csqReading Reading.Exact parseCsq
  dsimp only
  split_ifs with hbody
  · exact .inl rfl
  · cases hv : asInt (csvField (atExtract raw "+CSQ:") 0) with
    | none => exact .inl rfl
    | some v =>
      dsimp only
      split_ifs with hrange
      · exact .inl rfl
      · exact .inr (decimal_of_asInt hv (by omega) (by omega)).symm

theorem clckReading_exact (raw : Text) : (clckReading raw).Exact := by
  unfold clckReading Reading.Exact parseClck
  dsimp only
  split_ifs with hbody
  · exact .inl rfl
  · cases hv : asInt (csvField (atExtract raw "+CLCK:") 0) with
    | none => exact .inl rfl
    | some v =>
      rw [Option.filter_some]
      split_ifs with hrange
      · rw [Bool.or_eq_true, decide_eq_true_eq, decide_eq_true_eq] at hrange
        exact .inr (decimal_of_asInt hv (by omega) (by omega)).symm
      · exact .inl rfl

theorem ceregReading_exact (raw : Text) : (ceregReading raw).Exact := by
  unfold ceregReading Reading.Exact parseCereg
  dsimp only
  split_ifs with hbody
  · exact .inl rfl
  · split
    case h_1 h => exact .inr (decimal_of_asInt h (by omega) (by omega)).symm
    case h_2 h => exact .inr (decimal_of_asInt h (by omega) (by omega)).symm
    case h_3 h => exact .inr (decimal_of_asInt h (by omega) (by omega)).symm
    case h_4 h => exact .inr (decimal_of_asInt h (by omega) (by omega)).symm
    case h_5 h => exact .inr (decimal_of_asInt h (by omega) (by omega)).symm
    case h_6 => exact .inl rfl

theorem absent_exact (field : Text) : (Reading.mk field none).Exact := .inl rfl

theorem all_absent_exact (fs : List Text) : ∀ r ∈ fs.map fun f => Reading.mk f none, r.Exact := by
  rw [List.forall_mem_map]
  intro f _
  exact absent_exact f

theorem all_exact_iff (fs : List Text) :
    (∀ r ∈ fs.map fun f => Reading.mk f (asInt f), r.Exact) ↔ ∀ f ∈ fs, FitsInt f := by
  rw [List.forall_mem_map]
  simp only [exact_asInt_iff]

/-- An answer that names what it is about is not empty. -/
theorem body_ne_nil {body word : Text} (h : csvField body 0 = word) (hword : word ≠ []) :
    body ≠ [] := by
  rintro rfl
  exact hword (h.symm.trans (csvField_nil 0))

/-- In an empty answer there is no field, and none is read. -/
theorem field_exact_iff (body : Text) (k : ℕ) :
    (Reading.mk (csvField body k) (if body = [] then none else asInt (csvField body k))).Exact ↔
      FitsInt (csvField body k) := by
  split_ifs with hbody
  · rw [hbody, csvField_nil]
    exact iff_of_true (absent_exact _) fitsInt_nil
  · exact exact_asInt_iff _

theorem copsReading_exact_iff (raw : Text) :
    (copsReading raw).Exact ↔ FitsInt (csvField (atExtract raw "+COPS:") 3) := by
  unfold copsReading parseCops
  dsimp only
  rw [apply_ite OperatorInfo.act]
  exact field_exact_iff _ 3

theorem qnwinfoReading_exact_iff (raw : Text) :
    (qnwinfoReading raw).Exact ↔ FitsInt (csvField (atExtract raw "+QNWINFO:") 3) := by
  unfold qnwinfoReading parseQnwinfo
  dsimp only
  rw [apply_ite NwInfo.channel]
  exact field_exact_iff _ 3

theorem qcfgReading_exact_iff (raw : Text) (name : String) :
    (qcfgReading raw name).Exact ↔ ∀ f ∈ qcfgFields raw name, FitsInt f := by
  unfold qcfgReading parseQcfgInt qcfgFields
  dsimp only
  by_cases hname : csvField (atExtract raw "+QCFG:") 0 = name.toList
  · rw [if_neg (not_not.mpr hname), if_pos hname, List.forall_mem_singleton]
    exact field_exact_iff _ 1
  · rw [if_pos hname, if_neg hname, ite_self]
    exact iff_of_true (absent_exact _) (List.forall_mem_nil _)

theorem qpincReadings_exact_iff (raw : Text) :
    (∀ r ∈ qpincReadings raw, r.Exact) ↔ ∀ f ∈ qpincFields raw, FitsInt f := by
  unfold qpincReadings parseQpinc qpincFields
  dsimp only
  by_cases hname : csvField (atExtract raw "+QPINC:") 0 = "SC".toList
  · have hbody := body_ne_nil hname (by decide)
    rw [if_neg hbody, if_neg (not_not.mpr hname), if_pos hname]
    exact all_exact_iff [_, _]
  · rw [if_pos hname, if_neg hname, ite_self]
    exact iff_of_true (all_absent_exact [_, _]) (List.forall_mem_nil _)

theorem servingReadings_exact_iff (raw : Text) :
    (∀ r ∈ servingReadings raw, r.Exact) ↔ ∀ f ∈ servingFields raw, FitsInt f := by
  unfold servingReadings parseQengServingcell servingFields
  dsimp only
  by_cases hname : csvField (atExtract raw "+QENG:") 0 = "servingcell".toList
  · have hbody := body_ne_nil hname (by decide)
    have hserving : isServing raw = true := decide_eq_true hname
    rw [if_neg hbody, if_neg (not_not.mpr hname), hserving, if_pos rfl]
    exact all_exact_iff [_, _, _, _, _, _]
  · have hserving : isServing raw = false := decide_eq_false hname
    rw [if_pos hname, ite_self, hserving, if_neg Bool.false_ne_true]
    exact iff_of_true (all_absent_exact [_, _, _, _, _, _]) (List.forall_mem_nil _)

theorem neighbourReadings_exact_iff (body : Text) :
    (∀ r ∈ neighbourReadings body, r.Exact) ↔ ∀ f ∈ neighbourFields body, FitsInt f := by
  unfold neighbourReadings neighbourCell neighbourFields
  dsimp only
  by_cases hrat : csvField body 1 = "LTE".toList
  · simp only [if_pos hrat]
    exact all_exact_iff [_, _, _, _, _, _]
  · simp only [if_neg hrat]
    exact all_exact_iff [_, _]

theorem band_exact_iff (raw : Text) :
    BandExact raw ↔ Nat.ofDigitChars 10 (bandDigits raw) 0 < 2 ^ 31 := by
  unfold BandExact parseQengServingcell bandDigits
  dsimp only
  by_cases hname : csvField (atExtract raw "+QENG:") 0 = "servingcell".toList
  · have hbody := body_ne_nil hname (by decide)
    have hserving : isServing raw = true := decide_eq_true hname
    rw [if_neg hbody, if_neg (not_not.mpr hname), hserving, if_pos rfl]
    exact leadingNumber_exact_iff _
  · have hserving : isServing raw = false := decide_eq_false hname
    rw [if_pos hname, ite_self, hserving, if_neg Bool.false_ne_true]
    exact iff_of_true (.inl rfl) (by rw [Nat.ofDigitChars_nil]; omega)

/-- Every number is exact or absent, and no accumulator leaves the range of an `int`. -/
def NumbersExact (raw : Text) (name : String) : Prop :=
  (∀ r ∈ readings raw name, r.Exact) ∧ BandExact raw ∧
    ∀ n ∈ accumulated (bandDigits raw), n < 2 ^ 31

theorem numbersExact_iff (raw : Text) (name : String) :
    NumbersExact raw name ↔
      (∀ f ∈ plainFields raw name, FitsInt f) ∧
        Nat.ofDigitChars 10 (bandDigits raw) 0 < 2 ^ 31 := by
  have hreadings : (∀ r ∈ readings raw name, r.Exact) ↔ ∀ f ∈ plainFields raw name, FitsInt f := by
    unfold readings plainFields
    simp only [List.cons_append, List.forall_mem_cons, List.forall_mem_append, csqReading_exact,
      ceregReading_exact, clckReading_exact, true_and, copsReading_exact_iff,
      qnwinfoReading_exact_iff, qcfgReading_exact_iff, qpincReadings_exact_iff,
      servingReadings_exact_iff, List.forall_mem_flatMap, neighbourReadings_exact_iff, and_assoc]
  unfold NumbersExact
  rw [hreadings, band_exact_iff, accumulated_lt_iff, and_self]

/-- A band of ten digits. -/
def longBand : Text :=
  "+QENG: \"servingcell\",\"LIMSRV\",\"LTE\",\"FDD\",262,01,1A2B3,123,13,4294967299\r\n".toList

example : (parseQengServingcell longBand).bandMhz = some 1800 := by decide

/-- It is reported as band 3. -/
theorem not_numbersExact : ¬ NumbersExact longBand "usbnet" := by
  intro h
  have hband : BandExact longBand := h.2.1
  unfold BandExact at hband
  exact absurd hband (by decide)

end Machino.Cellular
