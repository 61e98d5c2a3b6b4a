import Machino.Rtp.RtpPacket

namespace Machino.H264

structure Nal where
  data : Bytes
  type : UInt8
  deriving DecidableEq

/-- A NAL unit with the type that its first byte gives. -/
def Nal.ofBytes (d : Bytes) : Nal := ⟨d, d.headD 0 &&& 0x1f⟩

/-- The length of the start code at the front. -/
def startCode : Bytes → Option ℕ
  | 0 :: 0 :: 1 :: _ => some 3
  | 0 :: 0 :: 0 :: 1 :: _ => some 4
  | _ => none

/-- Zero bytes at the end belong to the next start code. -/
def dropZeros (d : Bytes) : Bytes := (d.reverse.dropWhile (· = 0)).reverse

def pushUnit (d : Bytes) : List Bytes := if d = [] then [] else [d]

/-- The loop over the bytes: `skip` are left of a start code, `unit` is what has been read behind the
last one. -/
def splitFrom : ℕ → Option Bytes → Bytes → List Bytes
  | _, unit, [] => pushUnit (unit.getD [])
  | skip + 1, unit, _ :: d => splitFrom skip unit d
  | 0, unit, b :: d =>
    match startCode (b :: d) with
    | some sc => pushUnit (dropZeros (unit.getD [])) ++ splitFrom (sc - 1) (some []) d
    | none => splitFrom 0 (unit.map (· ++ [b])) d

/-- At most `max` units are written. -/
def split (d : Bytes) (max : ℕ) : List Nal := ((splitFrom 0 none d).take max).map Nal.ofBytes

/-- The parameter sets of an access unit that has both; the last ones count. -/
def extractParams (d : Bytes) : Option (Bytes × Bytes) := do
  let units := split d 32
  let sps ← units.reverse.find? (·.type = 7)
  let pps ← units.reverse.find? (·.type = 8)
  return (sps.data, pps.data)

/-- A unit as a writer of Annex B makes it. -/
structure WellFormed (d : Bytes) : Prop where
  ne : d ≠ []
  noStart : ¬ [0, 0, 1] <:+: d
  noZero : d.getLast? ≠ some 0

/-- A start code of three or four bytes. -/
def codeOf (long : Bool) : Bytes := if long then [0, 0, 0, 1] else [0, 0, 1]

def annexB (units : List (Bool × Bytes)) : Bytes := units.flatMap fun u => codeOf u.1 ++ u.2

theorem splitFrom_skip (pre d : Bytes) (unit : Option Bytes) :
    splitFrom pre.length unit (pre ++ d) = splitFrom 0 unit d := by
  induction pre with
  | nil => rfl
  | cons b pre ih => exact ih

/-- A start code closes the unit in front of it. -/
theorem splitFrom_codeOf (unit : Option Bytes) (long : Bool) (d : Bytes) :
    splitFrom 0 unit (codeOf long ++ d) =
      pushUnit (dropZeros (unit.getD [])) ++ splitFrom 0 (some []) d := by
  cases long with
  | false =>
    have hcode : startCode (0 :: ([0, 1] ++ d)) = some 3 := rfl
    show splitFrom 0 unit (0 :: ([0, 1] ++ d)) = _
    rw [splitFrom, hcode]
    exact congrArg (_ ++ ·) (splitFrom_skip [0, 1] d (some []))
  | true =>
    have hcode : startCode (0 :: ([0, 0, 1] ++ d)) = some 4 := rfl
    show splitFrom 0 unit (0 :: ([0, 0, 1] ++ d)) = _
    rw [splitFrom, hcode]
    exact congrArg (_ ++ ·) (splitFrom_skip [0, 0, 1] d (some []))

theorem noStart_tail {b : UInt8} {d : Bytes} (h : ¬ [0, 0, 1] <:+: b :: d) : ¬ [0, 0, 1] <:+: d :=
  fun hd => h (hd.trans (List.suffix_cons b d).isInfix)

/-- No start code begins within a unit. -/
theorem startCode_of_inside {b : UInt8} {d : Bytes} (hstart : ¬ [0, 0, 1] <:+: b :: d)
    (hzero : (b :: d).getLast? ≠ some 0) (s : Bytes) : startCode (b :: d ++ s) = none := by
  unfold startCode
  split
  · rename_i rest heq
    match d with
    | [] => simp_all
    | [c] => simp_all
    | c :: e :: d =>
      obtain ⟨rfl, rfl, rfl, -⟩ : b = 0 ∧ c = 0 ∧ e = 1 ∧ d ++ s = rest := by simpa using heq
      exact absurd (List.prefix_append [0, 0, 1] d).isInfix hstart
  · rename_i rest heq
    match d with
    | [] => simp_all
    | [c] => simp_all
    | [c, e] => simp_all
    | c :: e :: f :: d =>
      obtain ⟨rfl, rfl, rfl, rfl, -⟩ : b = 0 ∧ c = 0 ∧ e = 0 ∧ f = 1 ∧ d ++ s = rest := by
        simpa using heq
      exact absurd ((List.prefix_append [0, 0, 1] d).isInfix) (noStart_tail hstart)
  · rfl

theorem noZero_tail {b : UInt8} {d : Bytes} (h : (b :: d).getLast? ≠ some 0) :
    d.getLast? ≠ some 0 := by
  cases d with
  | nil => simp
  | cons c d => simpa [List.getLast?_cons_cons] using h

/-- A unit is read to its end. -/
theorem splitFrom_inside {d : Bytes} (hstart : ¬ [0, 0, 1] <:+: d) (hzero : d.getLast? ≠ some 0)
    (unit s : Bytes) : splitFrom 0 (some unit) (d ++ s) = splitFrom 0 (some (unit ++ d)) s := by
  induction d generalizing unit with
  | nil => rw [List.nil_append, List.append_nil]
  | cons b d ih =>
    have hcode := startCode_of_inside hstart hzero s
    rw [List.cons_append] at hcode ⊢
    rw [splitFrom, hcode]
    have hrest := ih (noStart_tail hstart) (noZero_tail hzero) (unit ++ [b])
    rwa [List.append_assoc] at hrest

theorem dropZeros_of_noZero {d : Bytes} (h : d.getLast? ≠ some 0) : dropZeros d = d := by
  unfold dropZeros
  rw [← List.reverse_inj, List.reverse_reverse]
  rw [← List.head?_reverse] at h
  cases hrev : d.reverse with
  | nil => rfl
  | cons b r =>
    rw [hrev] at h
    rw [List.dropWhile_cons_of_neg]
    simpa using h

theorem splitFrom_annexB {units : List (Bool × Bytes)} (h : ∀ u ∈ units, WellFormed u.2)
    (unit : Option Bytes) (hunit : (unit.getD []).getLast? ≠ some 0) :
    splitFrom 0 unit (annexB units) = pushUnit (unit.getD []) ++ units.map Prod.snd := by
  induction units generalizing unit with
  | nil => simp [annexB, splitFrom]
  | cons u units ih =>
    obtain ⟨hne, hstart, hzero⟩ := h u List.mem_cons_self
    have htext : annexB (u :: units) = codeOf u.1 ++ (u.2 ++ annexB units) := by simp [annexB]
    rw [htext, splitFrom_codeOf, dropZeros_of_noZero hunit, splitFrom_inside hstart hzero,
      List.nil_append, ih (fun v hv => h v (List.mem_cons_of_mem u hv)) (some u.2) hzero]
    simp [pushUnit, hne]

/-- What has been joined is split into the units again. -/
theorem split_annexB {units : List (Bool × Bytes)} (h : ∀ u ∈ units, WellFormed u.2) {max : ℕ}
    (hmax : units.length ≤ max) :
    split (annexB units) max = units.map fun u => Nal.ofBytes u.2 := by
  rw [split, splitFrom_annexB h none (by simp)]
  simp [pushUnit, List.take_of_length_le, hmax]

/-- `00 00 03` is `00 00`; `p` and `q` are the two bytes in front, also when one was left out. -/
def stripFrom (p q : UInt8) : Bytes → Bytes
  | [] => []
  | b :: d => if b = 3 ∧ q = 0 ∧ p = 0 then stripFrom q b d else b :: stripFrom q b d

/-- Nothing that counts is in front of the first byte. -/
def stripEmulation (d : Bytes) : Bytes := stripFrom 1 1 d

def preventFrom (zeros : ℕ) : Bytes → Bytes
  | [] => []
  | b :: d =>
    if zeros = 2 ∧ b ≤ 3 then 3 :: b :: preventFrom (if b = 0 then 1 else 0) d
    else b :: preventFrom (if b = 0 then zeros + 1 else 0) d

/-- The header byte is not counted. -/
def preventEmulation : Bytes → Bytes
  | [] => []
  | b :: d => b :: preventFrom 0 d

/-- No `00 00 00`, `00 00 01` or `00 00 02`. -/
def Unemulated (d : Bytes) : Prop := ∀ b : UInt8, b ≤ 2 → ¬ [0, 0, b] <:+: d

/-- The bytes in front have so many zeros at the end. -/
def ZerosBefore (p q : UInt8) : ℕ → Prop
  | 0 => q ≠ 0
  | 1 => q = 0 ∧ p ≠ 0
  | 2 => q = 0 ∧ p = 0
  | _ => False

theorem ZerosBefore.next {p q b : UInt8} {zeros : ℕ} (h : ZerosBefore p q zeros)
    (hb : ¬ (zeros = 2 ∧ b ≤ 3)) : ZerosBefore q b (if b = 0 then zeros + 1 else 0) := by
  split_ifs with h0
  · match zeros, h with
    | 0, h => exact ⟨h0, h⟩
    | 1, h => exact ⟨h0, h.1⟩
    | 2, h => exact absurd ⟨rfl, by rw [h0]; decide⟩ hb
  · exact h0

theorem stripFrom_preventFrom (d : Bytes) {p q : UInt8} {zeros : ℕ} (h : ZerosBefore p q zeros) :
    stripFrom p q (preventFrom zeros d) = d := by
  induction d generalizing p q zeros with
  | nil => rfl
  | cons b d ih =>
    unfold preventFrom
    by_cases hb : zeros = 2 ∧ b ≤ 3
    · obtain ⟨hq, hp⟩ : q = 0 ∧ p = 0 := by
        rw [hb.1] at h
        exact h
      rw [if_pos hb, stripFrom, if_pos ⟨rfl, hq, hp⟩, stripFrom,
        if_neg fun hbad => absurd hbad.2.1 (by decide)]
      have hnext : ZerosBefore 3 b (if b = 0 then 1 else 0) := by
        split_ifs with h0
        · exact ⟨h0, by decide⟩
        · exact h0
      rw [ih hnext]
    · have hkeep : ¬ (b = 3 ∧ q = 0 ∧ p = 0) := by
        rintro ⟨rfl, hq, hp⟩
        match zeros, h with
        | 0, h => exact h hq
        | 1, h => exact h.2 hp
        | 2, h => exact hb ⟨rfl, by decide⟩
      rw [if_neg hb, stripFrom, if_neg hkeep, ih (h.next hb)]

theorem stripEmulation_preventEmulation {b : UInt8} {d : Bytes} (hb : b ≠ 0) :
    stripEmulation (preventEmulation (b :: d)) = b :: d := by
  show stripFrom 1 1 (b :: preventFrom 0 d) = b :: d
  rw [stripFrom, if_neg fun hbad => absurd hbad.2.1 (by decide)]
  exact congrArg (b :: ·) (stripFrom_preventFrom d hb)

/-- Behind so many zeros, no byte below 3 comes after two. -/
def Clean : ℕ → Bytes → Prop
  | _, [] => True
  | zeros, b :: d => ¬ (2 ≤ zeros ∧ b ≤ 2) ∧ Clean (if b = 0 then zeros + 1 else 0) d

theorem Clean.drop {zeros : ℕ} {p d : Bytes} (h : Clean zeros (p ++ d)) :
    ∃ zeros', Clean zeros' d := by
  induction p generalizing zeros with
  | nil => exact ⟨zeros, h⟩
  | cons b p ih => exact ih h.2

theorem Clean.unemulated {d : Bytes} (h : Clean 0 d) : Unemulated d := by
  rintro b hb ⟨p, q, rfl⟩
  rw [List.append_assoc] at h
  obtain ⟨zeros, -, hrest⟩ := h.drop
  exact hrest.2.1 ⟨by rw [if_pos rfl, if_pos rfl]; omega, hb⟩

theorem clean_preventFrom (d : Bytes) {zeros : ℕ} (h : zeros ≤ 2) :
    Clean zeros (preventFrom zeros d) := by
  induction d generalizing zeros with
  | nil => trivial
  | cons b d ih =>
    unfold preventFrom
    by_cases hb : zeros = 2 ∧ b ≤ 3
    · rw [if_pos hb]
      refine ⟨fun hbad => absurd hbad.2 (by decide), ?_⟩
      rw [if_neg (by decide)]
      refine ⟨fun hbad => absurd hbad.1 (by decide), ih ?_⟩
      split_ifs <;> decide
    · rw [if_neg hb]
      have hsmall : ¬ (2 ≤ zeros ∧ b ≤ 2) :=
        fun hbad => hb ⟨by omega, UInt8.le_trans hbad.2 (by decide)⟩
      refine ⟨hsmall, ih ?_⟩
      split_ifs with h0
      · rw [h0] at hsmall
        have hzeros : ¬ 2 ≤ zeros := fun hz => hsmall ⟨hz, by decide⟩
        omega
      · omega

theorem unemulated_preventEmulation {b : UInt8} {d : Bytes} (hb : b ≠ 0) :
    Unemulated (preventEmulation (b :: d)) := by
  refine Clean.unemulated ⟨fun hbad => absurd hbad.1 (by decide), ?_⟩
  rw [if_neg hb]
  exact clean_preventFrom d (by decide)

theorem length_le_preventFrom (zeros : ℕ) (d : Bytes) :
    d.length ≤ (preventFrom zeros d).length := by
  induction d generalizing zeros with
  | nil => exact Nat.le_refl 0
  | cons b d ih =>
    unfold preventFrom
    split_ifs
    · rw [List.length_cons, List.length_cons, List.length_cons]
      exact Nat.succ_le_succ ((ih 1).trans (Nat.le_succ _))
    · rw [List.length_cons, List.length_cons, List.length_cons]
      exact Nat.succ_le_succ ((ih 0).trans (Nat.le_succ _))
    · rw [List.length_cons, List.length_cons]
      exact Nat.succ_le_succ (ih (zeros + 1))
    · rw [List.length_cons, List.length_cons]
      exact Nat.succ_le_succ (ih 0)

end Machino.H264
