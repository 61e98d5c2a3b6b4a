import Mathlib.Data.List.Infix
import Mathlib.Data.List.TakeWhile
import Machino.Http.Fmp4

namespace Machino.H264

/-- Each unit but the last without the zero bytes at its end. -/
def trimUnits : List Bytes → List Bytes
  | [] => []
  | [d] => [d]
  | d :: e :: ds => pushUnit (dropZeros d) ++ trimUnits (e :: ds)

theorem dropZeros_snoc (d : Bytes) : dropZeros (d ++ [0]) = dropZeros d := by
  simp [dropZeros]

theorem dropZeros_append_replicate (d : Bytes) (k : ℕ) :
    dropZeros (d ++ List.replicate k 0) = dropZeros d := by
  induction k generalizing d with
  | zero => rw [List.replicate_zero, List.append_nil]
  | succ k ih =>
    rw [List.replicate_succ, List.append_cons, ih, dropZeros_snoc]

/-- What is taken off is zeros. -/
theorem exists_dropZeros (d : Bytes) : ∃ k, d = dropZeros d ++ List.replicate k 0 := by
  have htake : d.reverse.takeWhile (· = 0) =
      List.replicate (d.reverse.takeWhile (· = 0)).length 0 := by
    rw [List.eq_replicate_iff]
    exact ⟨rfl, fun b hb => by simpa using List.mem_takeWhile_imp hb⟩
  refine ⟨(d.reverse.takeWhile (· = 0)).length, ?_⟩
  rw [dropZeros, ← List.reverse_inj, List.reverse_append, List.reverse_reverse,
    List.reverse_replicate, ← htake]
  exact (List.takeWhile_append_dropWhile).symm

theorem getLast?_dropZeros (d : Bytes) : (dropZeros d).getLast? ≠ some 0 := by
  rw [dropZeros, List.getLast?_reverse]
  intro h
  have hhead := List.head?_dropWhile_not (fun b : UInt8 => decide (b = 0)) d.reverse
  rw [h] at hhead
  exact absurd hhead (by simp)

theorem length_dropZeros_lt {d : Bytes} (h : d.getLast? = some 0) :
    (dropZeros d).length < d.length := by
  obtain ⟨k, hk⟩ := exists_dropZeros d
  have hlen := congrArg List.length hk
  rw [List.length_append, List.length_replicate] at hlen
  cases k with
  | zero =>
    rw [List.replicate_zero, List.append_nil] at hk
    rw [hk] at h
    exact absurd h (getLast?_dropZeros d)
  | succ k => omega

theorem noStart_dropZeros {d : Bytes} (h : ¬ [0, 0, 1] <:+: d) : ¬ [0, 0, 1] <:+: dropZeros d := by
  obtain ⟨k, hk⟩ := exists_dropZeros d
  intro hd
  apply h
  rw [hk]
  exact hd.trans (List.prefix_append _ _).isInfix

/-- Zero bytes in front of a long start code are read with it. -/
theorem splitFrom_zeros_long (unit d : Bytes) (k : ℕ) :
    splitFrom 0 (some unit) (List.replicate k 0 ++ (codeOf true ++ d)) =
      pushUnit (dropZeros unit) ++ splitFrom 0 (some []) d := by
  induction k generalizing unit with
  | zero => exact splitFrom_codeOf (some unit) true d
  | succ k ih =>
    have hcode : startCode (0 :: (List.replicate k 0 ++ (codeOf true ++ d))) = none := by
      match k with
      | 0 => rfl
      | 1 => rfl
      | 2 => rfl
      | k + 3 => rfl
    rw [List.replicate_succ, List.cons_append, splitFrom, hcode]
    exact (ih (unit ++ [0])).trans (by rw [dropZeros_snoc])

theorem splitFrom_zeros (unit d : Bytes) (k : ℕ) (long : Bool) :
    splitFrom 0 (some unit) (List.replicate k 0 ++ (codeOf long ++ d)) =
      pushUnit (dropZeros unit) ++ splitFrom 0 (some []) d := by
  cases long with
  | true => exact splitFrom_zeros_long unit d k
  | false =>
    cases k with
    | zero => exact splitFrom_codeOf (some unit) false d
    | succ k =>
      rw [List.replicate_succ', List.append_assoc]
      exact splitFrom_zeros_long unit d k

theorem startCode_of_noStart {d : Bytes} (h : ¬ [0, 0, 1] <:+: d) : startCode d = none := by
  unfold startCode
  split
  · rename_i rest
    exact absurd (List.prefix_append [0, 0, 1] rest).isInfix h
  · rename_i rest
    exact absurd (List.prefix_append [0, 0, 1] rest).isInfix (noStart_tail h)
  · rfl

/-- The last unit is read to the end, zero bytes and all. -/
theorem splitFrom_last {d : Bytes} (h : ¬ [0, 0, 1] <:+: d) (unit : Bytes) :
    splitFrom 0 (some unit) d = pushUnit (unit ++ d) := by
  induction d generalizing unit with
  | nil => rw [splitFrom, List.append_nil]; rfl
  | cons b d ih =>
    rw [splitFrom, startCode_of_noStart h]
    exact (ih (noStart_tail h) (unit ++ [b])).trans (by rw [List.append_assoc]; rfl)

/-- A unit in front of another loses the zero bytes at its end. -/
theorem splitFrom_unit {d : Bytes} (h : ¬ [0, 0, 1] <:+: d) (long : Bool) (s : Bytes) :
    splitFrom 0 (some []) (d ++ (codeOf long ++ s)) =
      pushUnit (dropZeros d) ++ splitFrom 0 (some []) s := by
  obtain ⟨k, hk⟩ := exists_dropZeros d
  have hinside := splitFrom_inside (noStart_dropZeros h) (getLast?_dropZeros d) []
    (List.replicate k 0 ++ (codeOf long ++ s))
  rw [← List.append_assoc, ← hk, List.nil_append, splitFrom_zeros] at hinside
  have htwice : dropZeros (dropZeros d) = dropZeros d := by
    rw [← dropZeros_append_replicate (dropZeros d) k, ← hk]
  rw [hinside, htwice]

theorem splitFrom_units {u : Bool × Bytes} {units : List (Bool × Bytes)}
    (h : ∀ v ∈ u :: units, v.2 ≠ [] ∧ ¬ [0, 0, 1] <:+: v.2) :
    splitFrom 0 (some []) (u.2 ++ annexB units) = trimUnits ((u :: units).map Prod.snd) := by
  induction units generalizing u with
  | nil =>
    obtain ⟨hne, hstart⟩ := h u List.mem_cons_self
    have hlast := splitFrom_last hstart []
    rw [annexB, List.flatMap_nil, List.append_nil, hlast]
    simp [trimUnits, pushUnit, hne]
  | cons v units ih =>
    have htext : annexB (v :: units) = codeOf v.1 ++ (v.2 ++ annexB units) := by simp [annexB]
    rw [htext, splitFrom_unit (h u List.mem_cons_self).2,
      ih fun w hw => h w (List.mem_cons_of_mem u hw)]
    rfl

/-- What byte strings without a start code in them come to, once they are joined. -/
theorem splitFrom_annexB_trim {units : List (Bool × Bytes)}
    (h : ∀ u ∈ units, u.2 ≠ [] ∧ ¬ [0, 0, 1] <:+: u.2) :
    splitFrom 0 none (annexB units) = trimUnits (units.map Prod.snd) := by
  cases units with
  | nil => rfl
  | cons u units =>
    have htext : annexB (u :: units) = codeOf u.1 ++ (u.2 ++ annexB units) := by simp [annexB]
    rw [htext, splitFrom_codeOf, splitFrom_units h]
    rfl

end Machino.H264

namespace Machino.Fmp4

open Bytes H264

/-- A unit that belongs into a sample. -/
def inSample (d : Bytes) : Bool := inBand (Nal.ofBytes d)

/-- A unit with its length in front. -/
def lengthPrefixed (d : Bytes) : Bytes := ofBe32 d.length ++ d

/-- What the sample of some units is to be. -/
def sampleOf (units : List Bytes) : Bytes := (units.filter inSample).flatMap lengthPrefixed

theorem annexbToAvcc_annexB {units : List (Bool × Bytes)}
    (h : ∀ u ∈ units, u.2 ≠ [] ∧ ¬ [0, 0, 1] <:+: u.2) :
    annexbToAvcc (annexB units) = sampleOf ((trimUnits (units.map Prod.snd)).take 64) := by
  rw [annexbToAvcc, split, splitFrom_annexB_trim h, List.filter_map, List.flatMap_map]
  rfl

theorem length_lengthPrefixed (d : Bytes) : (lengthPrefixed d).length = 4 + d.length := by
  rw [lengthPrefixed, List.length_append]
  rfl

theorem sampleOf_cons_of_pos {d : Bytes} (h : inSample d = true) (ds : List Bytes) :
    sampleOf (d :: ds) = lengthPrefixed d ++ sampleOf ds := by
  rw [sampleOf, List.filter_cons_of_pos h, List.flatMap_cons]
  rfl

theorem sampleOf_cons_of_neg {d : Bytes} (h : ¬ inSample d = true) (ds : List Bytes) :
    sampleOf (d :: ds) = sampleOf ds := by
  rw [sampleOf, List.filter_cons_of_neg h]
  rfl

/-- The type of a unit is in its first byte, which stays where anything does. -/
theorem inSample_dropZeros {d : Bytes} (h : dropZeros d ≠ []) :
    inSample (dropZeros d) = inSample d := by
  obtain ⟨k, hk⟩ := exists_dropZeros d
  have hhead : d.headD 0 = (dropZeros d).headD 0 := by
    cases hz : dropZeros d with
    | nil => exact absurd hz h
    | cons b z =>
      rw [hz] at hk
      rw [hk]
      rfl
  unfold inSample inBand Nal.ofBytes
  dsimp only
  rw [hhead]

/-- A unit of zero bytes has the type 0. -/
theorem dropZeros_ne_nil {d : Bytes} (h : ¬ inSample d = true) : dropZeros d ≠ [] := by
  intro hz
  obtain ⟨k, hk⟩ := exists_dropZeros d
  rw [hz, List.nil_append] at hk
  apply h
  rw [hk]
  cases k with
  | zero => rfl
  | succ k =>
    rw [inSample, Nal.ofBytes, List.replicate_succ, List.headD_cons]
    rfl

/-- A sample has nothing that is not in the units. -/
theorem length_sampleOf_take_le (n : ℕ) (units : List Bytes) :
    (sampleOf ((trimUnits units).take n)).length ≤ (sampleOf units).length := by
  have hcons : ∀ (d : Bytes) (ds : List Bytes), (sampleOf ds).length ≤ (sampleOf (d :: ds)).length := by
    intro d ds
    by_cases hd : inSample d = true
    · rw [sampleOf_cons_of_pos hd, List.length_append]
      omega
    · rw [sampleOf_cons_of_neg hd]
  induction units generalizing n with
  | nil => simp [trimUnits]
  | cons d units ih =>
    cases units with
    | nil =>
      cases n with
      | zero => exact Nat.zero_le _
      | succ n => exact le_of_eq (by simp [trimUnits])
    | cons e units =>
      rw [trimUnits]
      by_cases hz : dropZeros d = []
      · rw [pushUnit, if_pos hz, List.nil_append]
        exact (ih n).trans (hcons d _)
      · rw [pushUnit, if_neg hz, List.singleton_append]
        cases n with
        | zero => exact Nat.zero_le _
        | succ n =>
          rw [List.take_succ_cons]
          by_cases hd : inSample d = true
          · have hlen : (dropZeros d).length ≤ d.length := by
              obtain ⟨k, hk⟩ := exists_dropZeros d
              have heq := congrArg List.length hk
              rw [List.length_append] at heq
              omega
            have hrest := ih n
            rw [sampleOf_cons_of_pos hd, sampleOf_cons_of_pos ((inSample_dropZeros hz).trans hd),
              List.length_append, List.length_append, length_lengthPrefixed, length_lengthPrefixed]
            omega
          · have hd' : ¬ inSample (dropZeros d) = true := by rwa [inSample_dropZeros hz]
            rw [sampleOf_cons_of_neg hd, sampleOf_cons_of_neg hd']
            exact ih n

/-- No unit of a sample ends in a zero byte in front of another, or comes behind the first `n`. -/
structure Kept (n : ℕ) (units : List Bytes) : Prop where
  ends : ∀ d ∈ units.dropLast, inSample d = true → d.getLast? ≠ some 0
  within : ∀ d ∈ units.drop n, ¬ inSample d = true

/-- The first `n` units make the whole sample just where none is cut and none is left over. -/
theorem sampleOf_take_eq_iff (n : ℕ) {units : List Bytes} (hne : ∀ d ∈ units, d ≠ []) :
    sampleOf ((trimUnits units).take n) = sampleOf units ↔ Kept n units := by
  induction units generalizing n with
  | nil => exact ⟨fun _ => ⟨by simp, by simp⟩, fun _ => by simp [trimUnits]⟩
  | cons d units ih =>
    cases n with
    | zero =>
      rw [List.take_zero]
      constructor
      · intro h
        have hnone : ∀ e ∈ d :: units, ¬ inSample e = true := by
          intro e he hin
          have hmem : lengthPrefixed e ∈ ((d :: units).filter inSample).map lengthPrefixed :=
            List.mem_map_of_mem (List.mem_filter.mpr ⟨he, hin⟩)
          have hnil : lengthPrefixed e = [] := by
            have hall : sampleOf (d :: units) = [] := h.symm
            exact List.flatMap_eq_nil_iff.mp hall e (List.mem_filter.mpr ⟨he, hin⟩)
          have hlen := congrArg List.length hnil
          rw [length_lengthPrefixed, List.length_nil] at hlen
          omega
        exact ⟨fun e he hin => absurd hin (hnone e (List.mem_of_mem_dropLast he)), hnone⟩
      · intro h
        have hfilter : (d :: units).filter inSample = [] :=
          List.filter_eq_nil_iff.mpr fun e he => h.within e he
        rw [sampleOf, sampleOf, hfilter]
        rfl
    | succ n =>
      cases units with
      | nil => exact ⟨fun _ => ⟨by simp, by simp⟩, fun _ => by simp [trimUnits]⟩
      | cons e units =>
        have hkept : Kept (n + 1) (d :: e :: units) ↔
            (inSample d = true → d.getLast? ≠ some 0) ∧ Kept n (e :: units) := by
          constructor
          · rintro ⟨hends, hwithin⟩
            refine ⟨hends d (by simp), ⟨fun x hx => hends x ?_, hwithin⟩⟩
            rw [List.dropLast_cons_cons]
            exact List.mem_cons_of_mem d hx
          · rintro ⟨hd, hends, hwithin⟩
            refine ⟨fun x hx => ?_, hwithin⟩
            rw [List.dropLast_cons_cons] at hx
            obtain rfl | hx := List.mem_cons.mp hx
            · exact hd
            · exact hends x hx
        rw [hkept, ← ih n fun x hx => hne x (List.mem_cons_of_mem d hx), trimUnits]
        by_cases hd : inSample d = true
        · by_cases hzero : d.getLast? = some 0
          · have hlt := length_dropZeros_lt hzero
            refine iff_of_false (fun heq => ?_) fun h => h.1 hd hzero
            have hlen := congrArg List.length heq
            rw [sampleOf_cons_of_pos hd, List.length_append, length_lengthPrefixed] at hlen
            by_cases hz : dropZeros d = []
            · have hle := length_sampleOf_take_le (n + 1) (e :: units)
              rw [pushUnit, if_pos hz, List.nil_append] at hlen
              omega
            · have hle := length_sampleOf_take_le n (e :: units)
              rw [pushUnit, if_neg hz, List.singleton_append, List.take_succ_cons,
                sampleOf_cons_of_pos ((inSample_dropZeros hz).trans hd), List.length_append,
                length_lengthPrefixed] at hlen
              omega
          · have hsame := dropZeros_of_noZero hzero
            rw [hsame, pushUnit, if_neg (hne d List.mem_cons_self), List.singleton_append, List.take_succ_cons,
              sampleOf_cons_of_pos hd, sampleOf_cons_of_pos hd, List.append_cancel_left_eq]
            exact ⟨fun h => ⟨fun _ => hzero, h⟩, fun h => h.2⟩
        · have hz := dropZeros_ne_nil hd
          have hd' : ¬ inSample (dropZeros d) = true := by rwa [inSample_dropZeros hz]
          rw [pushUnit, if_neg hz, List.singleton_append, List.take_succ_cons,
            sampleOf_cons_of_neg hd, sampleOf_cons_of_neg hd']
          exact ⟨fun h => ⟨fun hin => absurd hin hd, h⟩, fun h => h.2⟩

/-- Joined units come to a sample as they are just where none in front of another ends in a zero byte,
which no NAL unit does, and none for the sample stands behind the sixty-fourth. -/
theorem annexbToAvcc_eq_iff {units : List (Bool × Bytes)}
    (h : ∀ u ∈ units, u.2 ≠ [] ∧ ¬ [0, 0, 1] <:+: u.2) :
    annexbToAvcc (annexB units) = sampleOf (units.map Prod.snd) ↔
      Kept 64 (units.map Prod.snd) := by
  rw [annexbToAvcc_annexB h]
  refine sampleOf_take_eq_iff 64 fun d hd => ?_
  obtain ⟨u, hu, rfl⟩ := List.mem_map.mp hd
  exact (h u hu).1

/-- A parameter set and a slice. -/
def twoUnits : List (Bool × Bytes) := [(true, [0x67, 1]), (false, [0x65, 0x88])]

theorem annexbToAvcc_twoUnits :
    annexbToAvcc (annexB twoUnits) = sampleOf (twoUnits.map Prod.snd) ↔
      Kept 64 (twoUnits.map Prod.snd) :=
  annexbToAvcc_eq_iff (by decide)

/-- One slice more than the splitter has room for. -/
def manySlices : List (Bool × Bytes) := List.replicate 65 (false, [0x41])

theorem not_annexbToAvcc :
    ¬ ∀ units : List (Bool × Bytes), (∀ u ∈ units, H264.WellFormed u.2) →
      annexbToAvcc (annexB units) = sampleOf (units.map Prod.snd) := by
  intro h
  have hslice : H264.WellFormed [0x41] := ⟨by decide, by decide, by decide⟩
  have hall := h manySlices fun u hu => by rw [List.eq_of_mem_replicate hu]; exact hslice
  have hlen := congrArg List.length hall
  exact absurd hlen (by decide +kernel)

end Machino.Fmp4
