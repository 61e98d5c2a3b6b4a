import Mathlib.Data.Nat.Bitwise
import Mathlib.Tactic.Linarith
import Machino.Basic.Companding

/-! G.711: µ-law and A-law, a byte for a sample. -/
namespace Machino.G711

open Companding

def kBias : ℕ := 0x84
def kClip : ℕ := 32635

/-- The loop over the bits of `s` from bit 14 down; bit 7 is not looked at. -/
def segmentFrom (s : ℕ) : ℕ → ℕ → ℕ
  | 0, _ => 0
  | exp + 1, m => if s &&& m = 0 then segmentFrom s exp (m >>> 1) else exp + 1

def segment (s : ℕ) : ℕ := segmentFrom s 7 0x4000

/-- The sign bit, the segment and the place in it. -/
def code (sign exp mant : ℕ) : UInt8 := UInt8.ofNat (sign ||| exp <<< 4 ||| mant)

def ulawEncode (pcm : Int16) : UInt8 :=
  let s := pcm.toInt
  let sign := if s < 0 then 0x80 else 0
  let s := min s.natAbs kClip + kBias
  let exp := segment s
  let mant := s >>> (exp + 3) &&& 0x0f
  ~~~ code sign exp mant

/-- The sign bit is set for the positive samples. -/
def alawEncode (pcm : Int16) : UInt8 :=
  let s := pcm.toInt
  let sign := if s < 0 then 0 else 0x80
  let s := min s.natAbs kClip
  if 256 ≤ s then
    let exp := segment s
    let mant := s >>> (exp + 3) &&& 0x0f
    code sign exp mant ^^^ 0x55
  else code sign 0 (s >>> 4) ^^^ 0x55

def ulawDecode (b : UInt8) : Int16 :=
  let u := (~~~ b).toNat
  let t := ((u &&& 0x0f) <<< 3 + kBias) <<< ((u &&& 0x70) >>> 4)
  Int16.ofInt (if u &&& 0x80 ≠ 0 then (kBias : ℤ) - t else t - kBias)

def alawDecode (b : UInt8) : Int16 :=
  let a := (b ^^^ 0x55).toNat
  let t := (a &&& 0x0f) <<< 4
  let seg := (a &&& 0x70) >>> 4
  let t :=
    if seg = 0 then t + 8
    else if seg = 1 then t + 0x108
    else (t + 0x108) <<< (seg - 1)
  Int16.ofInt (if a &&& 0x80 ≠ 0 then (t : ℤ) else -t)

theorem and_two_pow_eq_zero {s i : ℕ} (h : s < 2 ^ (i + 1)) : s &&& 2 ^ i = 0 ↔ s < 2 ^ i := by
  rw [Nat.and_two_pow]
  have hbit : s.testBit i = decide (2 ^ i ≤ s) := by
    rw [Nat.testBit_eq_decide_div_mod_eq]
    have hpow : 2 ^ (i + 1) = 2 ^ i * 2 := pow_succ 2 i
    by_cases hi : 2 ^ i ≤ s
    · have hdiv : s / 2 ^ i = 1 := Nat.div_eq_of_lt_le (by omega) (by omega)
      simp [hdiv, hi]
    · simp [Nat.div_eq_of_lt (Nat.lt_of_not_le hi), hi]
  rw [hbit]
  by_cases hi : 2 ^ i ≤ s
  · simp [hi]
  · simp [hi, Nat.lt_of_not_le hi]

theorem segmentFrom_eq {s : ℕ} (exp : ℕ) (h : s < 2 ^ (exp + 8)) :
    segmentFrom s exp (2 ^ (exp + 7)) = Nat.log 2 s - 7 := by
  induction exp with
  | zero =>
    have hlog : Nat.log 2 s < 8 := Nat.log_lt_of_lt_pow' (by decide) h
    rw [segmentFrom]
    omega
  | succ exp ih =>
    rw [segmentFrom]
    have hbit := and_two_pow_eq_zero (s := s) (i := exp + 1 + 7) h
    split_ifs with hlow
    · have hhalf : 2 ^ (exp + 1 + 7) >>> 1 = 2 ^ (exp + 7) := by
        rw [Nat.shiftRight_one, Nat.add_right_comm, pow_succ, Nat.mul_div_cancel _ (by decide)]
      rw [hhalf]
      exact ih (hbit.mp hlow)
    · have hle : 2 ^ (exp + 1 + 7) ≤ s := Nat.le_of_not_lt fun hlt => hlow (hbit.mpr hlt)
      rw [Nat.log_eq_of_pow_le_of_lt_pow hle h]
      omega

theorem segment_eq {s : ℕ} (h : s < 2 ^ 15) : segment s = Nat.log 2 s - 7 := segmentFrom_eq 7 h

/-- What a code stands for. -/
theorem toInt_ulawDecode (neg : Bool) {exp mant : ℕ} (hexp : exp < 8) (hmant : mant < 16) :
    (ulawDecode (~~~ code (if neg then 0x80 else 0) exp mant)).toInt =
      let v := 2 ^ exp * (8 * mant + 132) - kBias
      if neg then -(v : ℤ) else v := by
  have hall : ∀ neg : Bool, ∀ exp : Fin 8, ∀ mant : Fin 16,
      (ulawDecode (~~~ code (if neg then 0x80 else 0) exp mant)).toInt =
        let v := 2 ^ exp.val * (8 * mant.val + 132) - kBias
        if neg then -(v : ℤ) else v := by
    decide +kernel
  exact hall neg ⟨exp, hexp⟩ ⟨mant, hmant⟩

theorem toInt_alawDecode (neg : Bool) {exp mant : ℕ} (hexp : exp < 8) (hmant : mant < 16) :
    (alawDecode (code (if neg then 0 else 0x80) exp mant ^^^ 0x55)).toInt =
      let v := if exp = 0 then 16 * mant + 8 else 2 ^ exp * (8 * mant + 132)
      if neg then -(v : ℤ) else v := by
  have hall : ∀ neg : Bool, ∀ exp : Fin 8, ∀ mant : Fin 16,
      (alawDecode (code (if neg then 0 else 0x80) exp mant ^^^ 0x55)).toInt =
        let v := if exp.val = 0 then 16 * mant.val + 8 else 2 ^ exp.val * (8 * mant.val + 132)
        if neg then -(v : ℤ) else v := by
    decide +kernel
  exact hall neg ⟨exp, hexp⟩ ⟨mant, hmant⟩

/-- A number of 15 bits from its segment on, and the place in the segment that is kept of it. -/
theorem level_eq {s : ℕ} (hlow : 2 ^ 7 ≤ s) (hhigh : s < 2 ^ 15) :
    let exp := Nat.log 2 s - 7
    exp < 8 ∧ s / 2 ^ (exp + 3) % 16 < 16 ∧
      level 7 4 s = 2 ^ exp * (8 * (s / 2 ^ (exp + 3) % 16) + 132) := by
  have hlog7 : 7 ≤ Nat.log 2 s := Nat.le_log_of_pow_le (by decide) hlow
  have hlog : Nat.log 2 s < 15 := Nat.log_lt_of_lt_pow' (by decide) hhigh
  obtain ⟨exp, hexp⟩ := Nat.exists_eq_add_of_le hlog7
  have hpow := Nat.pow_log_le_self 2 (show s ≠ 0 by omega)
  have hlt := Nat.lt_pow_succ_log_self (b := 2) (by decide) s
  have hwidth : width 7 4 s = 2 ^ (exp + 3) := by
    unfold width
    rw [max_eq_left hlog7, hexp, show 7 + exp - 4 = exp + 3 by omega]
  have hsub : Nat.log 2 s - 7 = exp := by omega
  have hq : s / 2 ^ (exp + 3) = 16 + s / 2 ^ (exp + 3) % 16 := by
    have hlo : 16 ≤ s / 2 ^ (exp + 3) := by
      apply (Nat.le_div_iff_mul_le (Nat.two_pow_pos _)).mpr
      rw [show 16 = 2 ^ 4 from rfl, ← pow_add]
      rwa [hexp, show 7 + exp = 4 + (exp + 3) by omega] at hpow
    have hhi : s / 2 ^ (exp + 3) < 32 := by
      apply Nat.div_lt_of_lt_mul
      rw [show 32 = 2 ^ 5 from rfl, ← pow_add]
      rwa [hexp, Nat.succ_eq_add_one, show 7 + exp + 1 = exp + 3 + 5 by omega] at hlt
    omega
  dsimp only
  rw [hsub]
  refine ⟨by omega, Nat.mod_lt _ (by decide), ?_⟩
  have hhalf : 2 ^ (exp + 3) / 2 = 2 ^ exp * 4 := by
    rw [pow_succ, Nat.mul_div_cancel _ (by decide)]
    exact pow_add 2 exp 2
  rw [level, hwidth, hhalf]
  conv_lhs => rw [hq]
  rw [pow_add]
  generalize s / (2 ^ exp * 2 ^ 3) % 16 = mant
  ring

/-- The magnitude that is coded. -/
def clipped (pcm : Int16) : ℕ := min pcm.toInt.natAbs kClip

/-- The sample comes back with its sign and the level `f` of its magnitude. -/
def TakesTo (trip : Int16 → Int16) (f : ℕ → ℕ) : Prop :=
  ∀ pcm, (trip pcm).toInt = if pcm.toInt < 0 then -(f (clipped pcm) : ℤ) else f (clipped pcm)

def ulawLevel (m : ℕ) : ℕ := level 7 4 (m + kBias) - kBias

theorem kBias_le_level (m : ℕ) : kBias ≤ level 7 4 (m + kBias) := by
  have hself : level 7 4 kBias = kBias := by
    unfold level width
    rw [show Nat.log 2 kBias = 7 by norm_num [kBias, Nat.log_eq_iff]]
    rfl
  calc kBias = level 7 4 kBias := hself.symm
    _ ≤ level 7 4 (m + kBias) := level_mono (Nat.le_add_left _ _)

theorem takesTo_ulaw : TakesTo (fun pcm => ulawDecode (ulawEncode pcm)) ulawLevel := by
  intro pcm
  have hbias : kBias = 132 := rfl
  have hclip : clipped pcm ≤ 32635 := min_le_right _ _
  have hlt : clipped pcm + kBias < 2 ^ 15 := by omega
  obtain ⟨hexp, hmant, hlevel⟩ := level_eq (s := clipped pcm + kBias) (by omega) hlt
  have htrip := toInt_ulawDecode (decide (pcm.toInt < 0)) hexp hmant
  simp only [decide_eq_true_eq, ← hlevel] at htrip
  unfold ulawLevel
  rw [← htrip]
  dsimp only [ulawEncode]
  rw [← clipped, segment_eq hlt, Nat.shiftRight_eq_div_pow, show 0x0f = 2 ^ 4 - 1 from rfl,
    Nat.and_two_pow_sub_one_eq_mod]

def alawLevel (m : ℕ) : ℕ := level 8 4 m

theorem takesTo_alaw : TakesTo (fun pcm => alawDecode (alawEncode pcm)) alawLevel := by
  intro pcm
  have hclip : clipped pcm ≤ 32635 := min_le_right _ _
  by_cases hsmall : clipped pcm < 256
  · have hmant : clipped pcm / 16 < 16 := by omega
    have htrip := toInt_alawDecode (decide (pcm.toInt < 0)) (show 0 < 8 by decide) hmant
    have hlevel : alawLevel (clipped pcm) = 16 * (clipped pcm / 16) + 8 := by
      have hlog : Nat.log 2 (clipped pcm) ≤ 8 := by
        by_cases hzero : clipped pcm = 0
        · rw [hzero, Nat.log_zero_right]
          omega
        · exact (Nat.log_lt_of_lt_pow hzero (show _ < 2 ^ 8 from hsmall)).le
      unfold alawLevel level width
      rw [max_eq_right hlog]
      omega
    simp only [decide_eq_true_eq, if_true, ← hlevel] at htrip
    rw [← htrip]
    dsimp only [alawEncode]
    rw [← clipped, if_neg (by omega), Nat.shiftRight_eq_div_pow]
  · have hlt : clipped pcm < 2 ^ 15 := by omega
    have hlog : 8 ≤ Nat.log 2 (clipped pcm) := Nat.le_log_of_pow_le (by decide) (by omega)
    obtain ⟨hexp, hmant, hlevel⟩ := level_eq (s := clipped pcm) (by omega) hlt
    have htrip := toInt_alawDecode (decide (pcm.toInt < 0)) hexp hmant
    have hsame : level 7 4 (clipped pcm) = alawLevel (clipped pcm) := by
      unfold alawLevel level width
      rw [max_eq_left hlog, max_eq_left (by omega)]
    have hseg : Nat.log 2 (clipped pcm) - 7 ≠ 0 := by omega
    rw [if_neg hseg, ← hlevel, hsame] at htrip
    simp only [decide_eq_true_eq] at htrip
    rw [← htrip]
    dsimp only [alawEncode]
    rw [← clipped, if_pos (by omega), segment_eq hlt, Nat.shiftRight_eq_div_pow,
      show 0x0f = 2 ^ 4 - 1 from rfl, Nat.and_two_pow_sub_one_eq_mod]

/-- The sample that the coder sees. -/
def clip (pcm : Int16) : ℤ := max (-kClip) (min pcm.toInt kClip)

/-- A sample comes back within a 32nd of itself, or of `slack` where it is small; louder stays
louder; and what has gone through once goes through unchanged. -/
structure Quantises (trip : Int16 → Int16) (slack : ℕ) : Prop where
  near : ∀ pcm, 32 * |(trip pcm).toInt - clip pcm| ≤ |clip pcm| + slack
  mono : ∀ a b, a ≤ b → trip a ≤ trip b
  stable : ∀ pcm, trip (trip pcm) = trip pcm

theorem clip_eq (pcm : Int16) :
    clip pcm = if pcm.toInt < 0 then -(clipped pcm : ℤ) else clipped pcm := by
  unfold clip clipped kClip
  split_ifs <;> omega

theorem Quantises.of_level {trip : Int16 → Int16} {f : ℕ → ℕ} {slack : ℕ} (h : TakesTo trip f)
    (hmono : ∀ m n, m ≤ n → f m ≤ f n)
    (hnear : ∀ m, 32 * f m ≤ 33 * m + slack ∧ 31 * m ≤ 32 * f m + slack)
    (hclip : ∀ m ≤ kClip, f m ≤ kClip) (hstable : ∀ m, f (f m) = f m) :
    Quantises trip slack where
  near pcm := by
    obtain ⟨hup, hdown⟩ := hnear (clipped pcm)
    rw [h pcm, clip_eq]
    split_ifs
    · rw [abs_neg, Nat.abs_cast]
      obtain ⟨heq, -⟩ | ⟨heq, -⟩ := abs_cases (-(f (clipped pcm) : ℤ) - -(clipped pcm : ℤ))
      · omega
      · omega
    · rw [Nat.abs_cast]
      obtain ⟨heq, -⟩ | ⟨heq, -⟩ := abs_cases ((f (clipped pcm) : ℤ) - (clipped pcm : ℤ))
      · omega
      · omega
  mono a b hab := by
    rw [Int16.le_iff_toInt_le] at hab ⊢
    rw [h a, h b]
    split_ifs
    · have hle := hmono (clipped b) (clipped a) (by unfold clipped; omega)
      omega
    · omega
    · omega
    · have hle := hmono (clipped a) (clipped b) (by unfold clipped; omega)
      omega
  stable pcm := by
    have hle := hclip (clipped pcm) (min_le_right _ _)
    have hself : clipped (trip pcm) = f (clipped pcm) := by
      unfold clipped at *
      rw [h pcm]
      unfold clipped
      split_ifs <;> omega
    apply Int16.toInt_inj.mp
    rw [h (trip pcm), hself, hstable, h pcm]
    split_ifs <;> omega

theorem ulawLevel_near (m : ℕ) :
    32 * ulawLevel m ≤ 33 * m + 132 ∧ 31 * m ≤ 32 * ulawLevel m + 132 := by
  have hbias : kBias = 132 := rfl
  have hge := kBias_le_level m
  obtain ⟨hlow, hhigh⟩ := level_near (b := 7) (k := 4) (s := m + kBias)
  have hwidth := width_le (b := 7) (k := 4) (s := m + kBias) (by omega) (by decide)
  unfold ulawLevel
  omega

theorem ulawLevel_stable (m : ℕ) : ulawLevel (ulawLevel m) = ulawLevel m := by
  unfold ulawLevel
  rw [Nat.sub_add_cancel (kBias_le_level m), level_level]

theorem alawLevel_near (m : ℕ) :
    32 * alawLevel m ≤ 33 * m + 256 ∧ 31 * m ≤ 32 * alawLevel m + 256 := by
  obtain ⟨hlow, hhigh⟩ := level_near (b := 8) (k := 4) (s := m)
  unfold alawLevel
  by_cases hm : 2 ^ 8 ≤ m
  · have hwidth := width_le (b := 8) (k := 4) hm (by decide)
    omega
  · have hsmall : width 8 4 m ≤ width 8 4 256 := width_mono (by omega)
    have hlast : width 8 4 256 = 16 := by
      unfold width
      rw [show Nat.log 2 256 = 8 by norm_num [Nat.log_eq_iff]]
      rfl
    omega

/-- The loudest sample is not taken beyond itself. -/
theorem level_kClip : ulawLevel kClip ≤ kClip ∧ alawLevel kClip ≤ kClip := by
  have hlog : Nat.log 2 (kClip + kBias) = 14 ∧ Nat.log 2 kClip = 14 := by
    constructor <;> norm_num [kClip, kBias, Nat.log_eq_iff]
  unfold ulawLevel alawLevel level width
  rw [hlog.1, hlog.2]
  decide

/-- Either law keeps every sample to within a 32nd of itself, up to what the smallest step is, keeps
the order of any two, and adds nothing more however often the sound is coded again. -/
theorem quantises_ulaw_alaw :
    Quantises (fun pcm => ulawDecode (ulawEncode pcm)) 132 ∧
      Quantises (fun pcm => alawDecode (alawEncode pcm)) 256 := by
  have hulaw : ∀ m n, m ≤ n → ulawLevel m ≤ ulawLevel n := fun m n h =>
    Nat.sub_le_sub_right (level_mono (Nat.add_le_add_right h _)) _
  have halaw : ∀ m n, m ≤ n → alawLevel m ≤ alawLevel n := fun m n h => level_mono h
  constructor
  · exact Quantises.of_level takesTo_ulaw hulaw ulawLevel_near
      (fun m hm => (hulaw m kClip hm).trans level_kClip.1) ulawLevel_stable
  · exact Quantises.of_level takesTo_alaw halaw alawLevel_near
      (fun m hm => (halaw m kClip hm).trans level_kClip.2) fun m => level_level

end Machino.G711
