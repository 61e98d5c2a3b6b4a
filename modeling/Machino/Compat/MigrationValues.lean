import Machino.Compat.MajesticMigrate
import Machino.Core.AppConfig
import Machino.Core.CommittedLines

namespace Machino.Compat

open Lines

/-- Neither a blank nor a character that ends a value. -/
def isClean (c : Char) : Bool := !(isLow c || c = ',' || c = '#' || c = quotationMark)

def Clean (v : Text) : Prop := ∀ c ∈ v, isClean c = true

instance (v : Text) : Decidable (Clean v) :=
  decidable_of_iff (v.all isClean = true) List.all_eq_true

theorem isLow_of_isBlank {c : Char} (h : Text.isBlank c = true) : isLow c = true := by
  simp only [Text.isBlank, Bool.or_eq_true, decide_eq_true_eq] at h
  obtain ((rfl | rfl) | rfl) | rfl := h <;> decide

namespace Clean

variable {v : Text} (h : Clean v)

include h

theorem not_mem {c : Char} (hc : isClean c = false) : c ∉ v := fun hm => by
  rw [h c hm] at hc
  exact absurd hc (by decide)

theorem notLow {c : Char} (hc : c ∈ v) : isLow c = false := by
  have hclean := h c hc
  simp only [isClean, Bool.not_eq_true', Bool.or_eq_false_iff] at hclean
  exact hclean.1.1.1

theorem notBlank {c : Char} (hc : c ∈ v) : Text.isBlank c = false :=
  Bool.eq_false_iff.mpr fun hb => by
    have hlow := isLow_of_isBlank hb
    rw [h.notLow hc] at hlow
    exact absurd hlow (by decide)

theorem trim_eq : trim v = v :=
  Text.strip_eq_self (fun _ hc => h.notLow (List.mem_of_head? hc))
    fun _ hc => h.notLow (List.mem_of_getLast? hc)

theorem splitCommas_eq : splitCommas v = [v] := List.splitOn_eq_singleton (h.not_mem (by decide))

theorem splitCommas_append (w : Text) : splitCommas (v ++ ',' :: w) = v :: splitCommas w :=
  List.splitOn_append_cons_self_of_not_mem (h.not_mem (by decide)) w

theorem readBack_eq : readBack v = v := by
  refine readBack_eq_self_iff.mpr ⟨h.not_mem (by decide), ?_, ?_⟩
  · rw [trim_eq_self_iff]
    rintro c (hc | hc)
    · exact h.notBlank (List.mem_of_head? hc)
    · exact h.notBlank (List.mem_of_getLast? hc)
  · rintro ⟨_, hq, _⟩
    exact h.not_mem (by decide) (List.mem_of_head? hq)

end Clean

/-- All that may end a value stands before the minus sign. -/
theorem isClean_of_le {c : Char} (h : 45 ≤ c.toNat) : isClean c = true := by
  have hne {d : Char} (hd : d.toNat < 45) : c ≠ d := by
    rintro rfl
    omega
  have h1 : c ≠ ',' := hne (by decide)
  have h2 : c ≠ '#' := hne (by decide)
  have h3 : c ≠ quotationMark := hne (by decide)
  have h4 : ¬c.toNat ≤ 32 := by omega
  simp [isClean, isLow, h1, h2, h3, h4]

theorem clean_ofInt (n : Int) : Clean (Text.ofInt n) := by
  intro c hc
  have hdigit := isDigit_or_minus_of_mem_ofInt hc
  rw [Bool.or_eq_true, Char.isDigit_iff_toNat] at hdigit
  rcases hdigit with hd | hminus
  · have h48 : 48 ≤ c.toNat := hd.1
    exact isClean_of_le (by omega)
  · rw [of_decide_eq_true hminus]
    decide

theorem isClean_of_digitValue {c : Char} (h : Text.digitValue c < 36) : isClean c = true := by
  refine isClean_of_le ?_
  unfold Text.digitValue at h
  split at h
  · rename_i hd
    rw [Char.isDigit_iff_toNat] at hd
    have h48 : 48 ≤ c.toNat := hd.1
    omega
  · split at h
    · rename_i hl
      have : 'a'.toNat ≤ c.toNat := hl.1
      exact le_trans (by decide) this
    · split at h
      · rename_i hl
        have : 'A'.toNat ≤ c.toNat := hl.1
        exact le_trans (by decide) this
      · exact absurd h (lt_irrefl _)

theorem digits_all {b n : ℕ} {t : Text}
    (h : (if t.takeWhile (Text.digitValue · < b) = [] then none
      else some (Text.ofDigits b (t.takeWhile (Text.digitValue · < b)),
        t.drop (t.takeWhile (Text.digitValue · < b)).length)) = some (n, [])) :
    t ≠ [] ∧ ∀ c ∈ t, Text.digitValue c < b := by
  split at h
  · cases h
  · rename_i hne
    obtain ⟨-, hrest⟩ := Prod.mk.inj (Option.some.inj h)
    have hle := List.drop_eq_nil_iff.mp hrest
    have heq : t.takeWhile (Text.digitValue · < b) = t :=
      (List.takeWhile_prefix _).eq_of_length_le hle
    refine ⟨fun ht => hne (by rw [ht]; rfl), fun c hc => ?_⟩
    rw [← heq] at hc
    simpa using List.mem_takeWhile_imp hc

theorem prefixBase_cases {s t : Text} {b : ℕ} (h : Text.prefixBase 0 s = (b, t)) :
    b ≤ 16 ∧ (t = s ∨ ∃ x, (x = 'x' ∨ x = 'X') ∧ s = '0' :: x :: t) := by
  unfold Text.prefixBase at h
  rw [if_neg (by simp)] at h
  split at h
  · rename_i x c t'
    split at h
    · rename_i hx
      cases h
      exact ⟨le_rfl, .inr ⟨x, hx.1, rfl⟩⟩
    · cases h
      exact ⟨by decide, .inl rfl⟩
  · cases h
    exact ⟨by decide, .inl rfl⟩
  · cases h
    exact ⟨by decide, .inl rfl⟩

/-- What is read whole as an amount holds letters and digits only. -/
theorem clean_scanDigits {s : Text} {n : ℕ} (h : Text.scanDigits 0 s = some (n, [])) :
    s ≠ [] ∧ Clean s := by
  obtain ⟨⟨b, t⟩, hb⟩ : ∃ p, Text.prefixBase 0 s = p := ⟨_, rfl⟩
  unfold Text.scanDigits at h
  rw [hb] at h
  obtain ⟨hne, hdigits⟩ := digits_all h
  obtain ⟨hle, rfl | ⟨x, hx, rfl⟩⟩ := prefixBase_cases hb
  · exact ⟨hne, fun c hc => isClean_of_digitValue (by have := hdigits c hc; omega)⟩
  · refine ⟨List.cons_ne_nil _ _, ?_⟩
    rw [Clean, List.forall_mem_cons, List.forall_mem_cons]
    refine ⟨by decide, ?_, fun c hc => isClean_of_digitValue (by have := hdigits c hc; omega)⟩
    rcases hx with rfl | rfl
    · decide
    · decide

/-- A sign is one character in front, or nothing. -/
theorem sign_cases (u : Text) :
    (Text.sign u).2 = u ∨ ∃ c, isClean c = true ∧ u = c :: (Text.sign u).2 := by
  unfold Text.sign
  split
  · exact .inr ⟨'-', by decide, rfl⟩
  · exact .inr ⟨'+', by decide, rfl⟩
  · exact .inl rfl

theorem clean_sign {u : Text} (hne : (Text.sign u).2 ≠ []) (h : Clean (Text.sign u).2) :
    u ≠ [] ∧ Clean u := by
  obtain heq | ⟨c, hc, heq⟩ := sign_cases u
  · rw [heq] at hne h
    exact ⟨hne, h⟩
  · rw [heq]
    exact ⟨List.cons_ne_nil _ _, List.forall_mem_cons.mpr ⟨hc, h⟩⟩

theorem clean_scanNumber {u : Text} {neg : Bool} {n : ℕ}
    (hspace : ∀ c, u.head? = some c → isLow c = false)
    (h : Text.scanNumber 0 u = some (neg, n, [])) : u ≠ [] ∧ Clean u := by
  have hdrop : u.dropWhile Text.isSpace = u := by
    cases u with
    | nil => rfl
    | cons c u =>
      have hlow := hspace c rfl
      refine List.dropWhile_cons_of_neg fun hs => ?_
      simp only [Text.isSpace, Bool.or_eq_true, Bool.and_eq_true, decide_eq_true_eq] at hs
      have hle : c.toNat ≤ 32 := by
        rcases hs with rfl | ⟨-, h13⟩
        · decide
        · omega
      simp [isLow, hle] at hlow
  unfold Text.scanNumber at h
  rw [hdrop] at h
  obtain ⟨⟨m, rest⟩, hm, heq⟩ := Option.map_eq_some_iff.mp h
  obtain ⟨-, rfl, rfl⟩ : _ ∧ m = n ∧ rest = [] := by simpa using heq
  exact (clean_scanDigits hm).elim clean_sign

/-- What the loader reads of a value that is copied as it stands. -/
def written (v : Text) : Text := readBack (trim ((splitCommas v).headD []))

theorem Clean.written_eq {v : Text} (h : Clean v) : written v = v := by
  rw [written, h.splitCommas_eq, List.headD_cons, h.trim_eq, h.readBack_eq]

/-- Nothing, or a zero byte and whatever is behind it. -/
def Unseen (t : Text) : Prop := ∀ c, t.head? = some c → c.toNat = 0

theorem Unseen.of_prefix {t t' : Text} (h : Unseen t) (hp : t' <+: t) : Unseen t' := by
  obtain ⟨s, rfl⟩ := hp
  intro c hc
  refine h c ?_
  rw [List.head?_append, hc]
  rfl

theorem cString_unseen {u t : Text} (hu : Clean u) (ht : Unseen t) : Text.cString (u ++ t) = u := by
  have hpos : ∀ c ∈ u, decide (c.toNat ≠ 0) = true := by
    intro c hc
    have hlow := hu.notLow hc
    simp only [isLow, decide_eq_false_iff_not] at hlow
    exact decide_eq_true (by omega)
  rw [Text.cString, List.takeWhile_append_of_pos hpos]
  cases t with
  | nil => simp
  | cons c t =>
    have hc : c.toNat = 0 := ht c rfl
    rw [List.takeWhile_cons_of_neg (by simp [hc]), List.append_nil]

theorem exists_unseen (v : Text) : ∃ t, Unseen t ∧ v = Text.cString v ++ t := by
  refine ⟨v.dropWhile fun c => c.toNat ≠ 0, fun c hc => ?_, (List.takeWhile_append_dropWhile).symm⟩
  have hnot := List.head?_dropWhile_not (fun c : Char => decide (c.toNat ≠ 0)) v
  rw [hc] at hnot
  simpa using hnot

theorem takeWhile_ne_unseen {u t : Text} {d : Char} (hu : Clean u) (hd : isClean d = false) :
    ∃ t', t' <+: t ∧ (u ++ t).takeWhile (· ≠ d) = u ++ t' := by
  refine ⟨_, List.takeWhile_prefix _, List.takeWhile_append_of_pos fun c hc => ?_⟩
  refine decide_eq_true fun h => ?_
  rw [← h, hu c hc] at hd
  exact absurd hd (by decide)

theorem strip_unseen {p : Char → Bool} {u t : Text} (hne : u ≠ []) (hp : ∀ c ∈ u, p c = false) :
    ∃ t', t' <+: t ∧ Text.strip p p (u ++ t) = u ++ t' := by
  have hdrop : (u ++ t).dropWhile p = u ++ t := by
    cases u with
    | nil => exact absurd rfl hne
    | cons c u => exact List.dropWhile_cons_of_neg (by simp [hp c List.mem_cons_self])
  unfold Text.strip
  rw [hdrop]
  clear hdrop
  induction t using List.reverseRecOn with
  | nil =>
    refine ⟨[], List.nil_prefix, ?_⟩
    rw [List.append_nil, List.rdropWhile_eq_self_iff]
    intro h
    simp [hp _ (List.getLast_mem h)]
  | append_singleton t c ih =>
    rw [← List.append_assoc]
    by_cases hc : p c = true
    · obtain ⟨t', ht', heq⟩ := ih
      refine ⟨t', ht'.trans (List.prefix_append _ _), ?_⟩
      rw [List.rdropWhile_concat_pos _ _ _ hc, heq]
    · exact ⟨t ++ [c], List.prefix_refl _, by
        rw [List.rdropWhile_concat_neg _ _ _ hc, List.append_assoc]⟩

/-- The first of the pieces ends at the first comma. -/
theorem headD_splitCommas (v : Text) : (splitCommas v).headD [] = v.takeWhile (· ≠ ',') := by
  induction v with
  | nil => rfl
  | cons c v ih =>
    rw [splitCommas, List.splitOn_cons_eq_if_modifyHead]
    by_cases hc : c = ','
    · simp [hc]
    · rw [if_neg (by simpa using hc), List.takeWhile_cons_of_pos (by simpa using hc), ← ih]
      change _ = c :: (v.splitOn ',').headD []
      obtain ⟨w, ws, hw⟩ := List.exists_cons_of_ne_nil (List.splitOn_ne_nil ',' v)
      rw [hw]
      rfl

theorem trim_trim (v : Text) : trim (trim v) = trim v :=
  Text.strip_eq_self (Text.strip_ends v).1 (Text.strip_ends v).2

/-- Blanks around a value make no difference to its first piece. -/
theorem written_trim (v : Text) : written (trim v) = written v := by
  unfold written
  rw [headD_splitCommas, headD_splitCommas]
  congr 1
  by_cases hv : ',' ∈ v
  · obtain ⟨a, b, rfl, ha⟩ := List.eq_append_cons_of_mem hv
    have ha' : ',' ∉ a.dropWhile isLow := fun h => ha ((List.dropWhile_suffix _).subset h)
    have htrim : trim (a ++ ',' :: b) = a.dropWhile isLow ++ ',' :: b.rdropWhile isLow :=
      Text.strip_append_cons (by decide) (by decide) a b
    rw [htrim, takeWhile_first ha', takeWhile_first ha]
    exact Text.strip_dropWhile a
  · have hwhole {w : Text} (hw : ',' ∉ w) : w.takeWhile (· ≠ ',') = w := by
      rw [List.takeWhile_eq_self_iff]
      exact fun c hc => decide_eq_true fun h => hw (h ▸ hc)
    rw [hwhole hv, hwhole fun h => hv ((trim_sublist v).subset h), trim_trim]

/-- A number is read alike before and behind. -/
theorem cString_written {v : Text} (hne : Text.cString v ≠ []) (hu : Clean (Text.cString v)) :
    Text.cString (written v) = Text.cString v := by
  obtain ⟨t, ht, hv⟩ := exists_unseen v
  generalize Text.cString v = u at *
  subst hv
  obtain ⟨t₁, ht₁, h₁⟩ := takeWhile_ne_unseen (t := t) hu (d := ',') (by decide)
  obtain ⟨t₂, ht₂, h₂⟩ := @strip_unseen _ u t₁ hne fun _ => hu.notLow
  obtain ⟨t₃, ht₃, h₃⟩ := takeWhile_ne_unseen (t := t₂) hu (d := '#') (by decide)
  obtain ⟨t₄, ht₄, h₄⟩ := @strip_unseen _ u t₃ hne fun _ => hu.notBlank
  have hquote : ¬Quoted (u ++ t₄) := by
    rintro ⟨_, hq, _⟩
    rw [List.head?_append_of_ne_nil _ hne] at hq
    exact hu.not_mem (by decide) (List.mem_of_head? hq)
  have hwritten : written (u ++ t) = u ++ t₄ := by
    unfold written readBack uncommented
    rw [headD_splitCommas, h₁, trim, h₂, h₃, Text.trim_eq_strip, h₄]
    exact if_neg hquote
  rw [hwritten]
  exact cString_unseen hu (ht.of_prefix (((ht₄.trans ht₃).trans ht₂).trans ht₁))

theorem toInt_written {v : Text} (ht : trim v = v) (h : (Machino.toInt v).isSome) :
    Machino.toInt (written v) = Machino.toInt v := by
  have hhead : ∀ c, (Text.cString v).head? = some c → isLow c = false := by
    intro c hc
    obtain ⟨t, -, hv⟩ := exists_unseen v
    have hends := (Text.strip_ends (p := isLow) (q := isLow) v).1 c
    rw [← trim, ht] at hends
    refine hends ?_
    rw [hv, List.head?_append, hc]
    rfl
  have hread : ∃ neg n, Text.scanNumber 0 (Text.cString v) = some (neg, n, []) := by
    unfold Machino.toInt Text.strtol at h
    cases hs : Text.scanNumber 0 (Text.cString v) with
    | none => simp [hs] at h
    | some r =>
      obtain ⟨neg, n, rest⟩ := r
      rw [hs] at h
      cases rest with
      | nil => exact ⟨neg, n, rfl⟩
      | cons c rest => simp at h
  obtain ⟨neg, n, hs⟩ := hread
  obtain ⟨hne, hclean⟩ := clean_scanNumber hhead hs
  rw [Machino.toInt, Machino.toInt, cString_written hne hclean]

theorem clean_of_toBool {v : Text} (h : (toBool v).isSome) : Clean v := by
  have hwords : ∀ w ∈ ["1", "true", "yes", "on", "0", "false", "no", "off"].map String.toList,
      Clean w := by decide
  unfold toBool at h
  split at h
  · rename_i hv
    exact hwords v (by simp only [List.map, List.mem_cons] at hv ⊢; tauto)
  · split at h
    · rename_i hv
      exact hwords v (by simp only [List.map, List.mem_cons] at hv ⊢; tauto)
    · cases h

/-- The kinds of the values that are copied as they stand. -/
def isCopied : Kind → Bool
  | .int _ _ | .srate | .bool => true
  | _ => false

/-- What the key takes is what it is then given. -/
theorem read_written {kind : Kind} (hk : isCopied kind = true) {v : Text} (ht : trim v = v)
    (h : (kind.read v).isSome) : kind.read (written v) = kind.read v := by
  cases kind with
  | int lo hi =>
    have hint : (Machino.toInt v).isSome := by
      cases hv : Machino.toInt v with
      | none => simp [Kind.read, intIn, hv] at h
      | some n => rfl
    rw [Kind.read, Kind.read, intIn, intIn, toInt_written ht hint]
  | srate =>
    have hint : (Machino.toInt v).isSome := by
      cases hv : Machino.toInt v with
      | none => simp [Kind.read, hv] at h
      | some n => rfl
    rw [Kind.read, Kind.read, toInt_written ht hint]
  | bool =>
    have hbool : (toBool v).isSome := by simpa [Kind.read] using h
    rw [(clean_of_toBool hbool).written_eq]
  | _ => cases hk

end Machino.Compat
